import ByteAsm.Text.WhiteSpace

namespace ByteAsm.Text

theorem toNat_ofNat_add {k m : Nat} (h : k + m < 256) : (UInt8.ofNat (k + m)).toNat = k + m := by
  rw [UInt8.toNat_ofNat', Nat.mod_eq_of_lt h]

theorem continuation_ofNat {k : Nat} (hk : k < 64) (n value : Nat) (rest : Text) :
    continuation (n + 1) value (UInt8.ofNat (k + 0x80) :: rest) =
      continuation n (value * 64 + k) rest := by
  have ht := toNat_ofNat_add (k := k) (m := 0x80) (by omega)
  have hc : isContinuation (UInt8.ofNat (k + 0x80)) := by
    simp only [isContinuation, Bool.and_eq_true, decide_eq_true_eq, UInt8.le_iff_toNat_le,
      UInt8.lt_iff_toNat_lt, ht]
    exact ⟨Nat.le_add_left _ _, Nat.add_lt_add_right hk _⟩
  rw [continuation, if_pos hc, ht, Nat.add_sub_cancel]

-- A character that is written in more than one byte is read from the payloads of its bytes.
theorem firstPiece_sequence (c : Char) (b : UInt8) {n start least : Nat} {rest : Text}
    (hc : continuation n start rest = some c.toNat) (hl : least ≤ c.toNat) :
    firstPiece.sequence b rest n start least = (.char c, n) := by
  have hv : c.toNat.isValidChar := c.valid
  simp [firstPiece.sequence, hc, hl, hv]

theorem firstPiece_two {k : Nat} (hk : k < 0x20) (rest : Text) :
    firstPiece (UInt8.ofNat (k + 0xC0)) rest =
      firstPiece.sequence (UInt8.ofNat (k + 0xC0)) rest 1 k 0x80 := by
  have ht := toNat_ofNat_add (k := k) (m := 0xC0) (by omega)
  rw [firstPiece, ht, if_neg (by omega), if_neg (by omega), if_pos (by omega), Nat.add_sub_cancel]

theorem firstPiece_three {k : Nat} (hk : k < 0x10) (rest : Text) :
    firstPiece (UInt8.ofNat (k + 0xE0)) rest =
      firstPiece.sequence (UInt8.ofNat (k + 0xE0)) rest 2 k 0x800 := by
  have ht := toNat_ofNat_add (k := k) (m := 0xE0) (by omega)
  rw [firstPiece, ht, if_neg (by omega), if_neg (by omega), if_neg (by omega), if_pos (by omega),
    Nat.add_sub_cancel]

theorem firstPiece_four {k : Nat} (hk : k < 0x08) (rest : Text) :
    firstPiece (UInt8.ofNat (k + 0xF0)) rest =
      firstPiece.sequence (UInt8.ofNat (k + 0xF0)) rest 3 k 0x10000 := by
  have ht := toNat_ofNat_add (k := k) (m := 0xF0) (by omega)
  rw [firstPiece, ht, if_neg (by omega), if_neg (by omega), if_neg (by omega), if_neg (by omega),
    Nat.add_sub_cancel]

section

variable {c : Char}

theorem encode_one (h : c.toNat < 0x80) : String.utf8EncodeChar c = [UInt8.ofNat c.toNat] :=
  if_pos (Nat.le_of_lt_succ h)

theorem encode_two (h₁ : 0x80 ≤ c.toNat) (h₂ : c.toNat < 0x800) :
    String.utf8EncodeChar c =
      [UInt8.ofNat (c.toNat / 64 + 0xC0), UInt8.ofNat (c.toNat % 64 + 0x80)] := by
  have hn : c.val.toNat = c.toNat := rfl
  have hd : c.toNat / 64 % 0x20 = c.toNat / 64 := by omega
  simp only [String.utf8EncodeChar, hn, hd]
  rw [if_neg (by omega), if_pos (by omega)]

theorem encode_three (h₁ : 0x800 ≤ c.toNat) (h₂ : c.toNat < 0x10000) :
    String.utf8EncodeChar c =
      [UInt8.ofNat (c.toNat / 4096 + 0xE0), UInt8.ofNat (c.toNat / 64 % 64 + 0x80),
        UInt8.ofNat (c.toNat % 64 + 0x80)] := by
  have hn : c.val.toNat = c.toNat := rfl
  have hd : c.toNat / 4096 % 0x10 = c.toNat / 4096 := by omega
  simp only [String.utf8EncodeChar, hn, hd]
  rw [if_neg (by omega), if_neg (by omega), if_pos (by omega)]

theorem toNat_lt (c : Char) : c.toNat < 0x110000 := by
  have hn : c.val.toNat = c.toNat := rfl
  have h := c.valid
  simp only [UInt32.isValidChar, Nat.isValidChar, hn] at h
  omega

theorem encode_four (h : 0x10000 ≤ c.toNat) :
    String.utf8EncodeChar c =
      [UInt8.ofNat (c.toNat / 262144 + 0xF0), UInt8.ofNat (c.toNat / 4096 % 64 + 0x80),
        UInt8.ofNat (c.toNat / 64 % 64 + 0x80), UInt8.ofNat (c.toNat % 64 + 0x80)] := by
  have hn : c.val.toNat = c.toNat := rfl
  have hv := toNat_lt c
  have hd : c.toNat / 262144 % 0x08 = c.toNat / 262144 := by omega
  simp only [String.utf8EncodeChar, hn, hd]
  rw [if_neg (by omega), if_neg (by omega), if_neg (by omega)]

end

-- Only ASCII characters have bytes below 128.
theorem le_of_mem_encode {c : Char} (h : 0x80 ≤ c.toNat) :
    ∀ b ∈ String.utf8EncodeChar c, 0x80 ≤ b.toNat := by
  have hv := toNat_lt c
  have hb {k m : Nat} (hm : 0x80 ≤ m) (hk : k + m < 256) : 0x80 ≤ (UInt8.ofNat (k + m)).toNat := by
    rw [toNat_ofNat_add hk]
    omega
  by_cases h₂ : c.toNat < 0x800
  case pos =>
    rw [encode_two h h₂, List.forall_mem_cons, List.forall_mem_singleton]
    exact ⟨hb (by decide) (by omega), hb (by decide) (by omega)⟩
  case neg =>
    by_cases h₃ : c.toNat < 0x10000
    case pos =>
      rw [encode_three (by omega) h₃, List.forall_mem_cons, List.forall_mem_cons,
        List.forall_mem_singleton]
      exact ⟨hb (by decide) (by omega), hb (by decide) (by omega), hb (by decide) (by omega)⟩
    case neg =>
      rw [encode_four (by omega), List.forall_mem_cons, List.forall_mem_cons, List.forall_mem_cons,
        List.forall_mem_singleton]
      exact ⟨hb (by decide) (by omega), hb (by decide) (by omega), hb (by decide) (by omega),
        hb (by decide) (by omega)⟩

theorem toNat_of_mem_encode {c : Char} {b : UInt8} (h : b ∈ String.utf8EncodeChar c)
    (hb : b.toNat < 0x80) : c.toNat = b.toNat := by
  by_cases hc : c.toNat < 0x80
  case pos =>
    rw [encode_one hc, List.mem_singleton] at h
    rw [h]
    exact (toNat_ofNat_add (k := c.toNat) (m := 0) (by omega)).symm
  case neg =>
    have hle := le_of_mem_encode (Nat.le_of_not_lt hc) b h
    omega

theorem not_mem_ofChars {b : UInt8} {cs : List Char} (hb : b.toNat < 0x80)
    (h : Char.ofNat b.toNat ∉ cs) : b ∉ ofChars cs := by
  intro hm
  have ⟨c, hc, hb'⟩ := List.mem_flatMap.mp hm
  rw [←toNat_of_mem_encode hb' hb, Char.ofNat_toNat] at h
  exact h hc

theorem firstPiece_encode (c : Char) (rest : Text) : ∃ b bs, String.utf8EncodeChar c = b :: bs ∧
    firstPiece b (bs ++ rest) = (.char c, bs.length) := by
  have hv := toNat_lt c
  by_cases h₁ : c.toNat < 0x80
  case pos =>
    refine ⟨_, _, encode_one h₁, ?_⟩
    have ht : (UInt8.ofNat c.toNat).toNat = c.toNat :=
      toNat_ofNat_add (k := c.toNat) (m := 0) (by omega)
    rw [firstPiece, ht, if_pos h₁, Char.ofNat_toNat]
    rfl
  case neg =>
    by_cases h₂ : c.toNat < 0x800
    case pos =>
      refine ⟨_, _, encode_two (by omega) h₂, ?_⟩
      rw [firstPiece_two (by omega)]
      apply firstPiece_sequence
      · rw [List.cons_append, continuation_ofNat (by omega), continuation]
        congr 1
        omega
      · omega
    case neg =>
      by_cases h₃ : c.toNat < 0x10000
      case pos =>
        refine ⟨_, _, encode_three (by omega) h₃, ?_⟩
        rw [firstPiece_three (by omega)]
        apply firstPiece_sequence
        · rw [List.cons_append, List.cons_append, continuation_ofNat (by omega),
            continuation_ofNat (by omega), continuation]
          congr 1
          omega
        · omega
      case neg =>
        refine ⟨_, _, encode_four (by omega), ?_⟩
        rw [firstPiece_four (by omega)]
        apply firstPiece_sequence
        · rw [List.cons_append, List.cons_append, List.cons_append, continuation_ofNat (by omega),
            continuation_ofNat (by omega), continuation_ofNat (by omega), continuation]
          congr 1
          omega
        · omega

theorem eq_of_isContinuation {b : UInt8} (h : isContinuation b) :
    ∃ k < 64, b = UInt8.ofNat (k + 0x80) := by
  simp only [isContinuation, Bool.and_eq_true, decide_eq_true_eq, UInt8.le_iff_toNat_le,
    UInt8.lt_iff_toNat_lt] at h
  have h₁ : 0x80 ≤ b.toNat := h.left
  have h₂ : b.toNat < 0xC0 := h.right
  refine ⟨b.toNat - 0x80, by omega, ?_⟩
  rw [Nat.sub_add_cancel h₁, UInt8.ofNat_toNat]

theorem continuation_eq_some {n value result : Nat} {t : Text}
    (h : continuation (n + 1) value t = some result) :
    ∃ k < 64, ∃ rest, t = UInt8.ofNat (k + 0x80) :: rest ∧
      continuation n (value * 64 + k) rest = some result := by
  cases t
  case nil => simp [continuation] at h
  case cons b rest =>
    by_cases hb : isContinuation b
    case neg => simp [continuation, hb] at h
    case pos =>
      have ⟨k, hk, he⟩ := eq_of_isContinuation hb
      subst he
      rw [continuation_ofNat hk] at h
      exact ⟨k, hk, rest, rfl, h⟩

theorem toNat_ofNat_of_isValidChar {n : Nat} (h : n.isValidChar) : (Char.ofNat n).toNat = n := by
  rw [Char.ofNat, dif_pos h]
  rfl

theorem sequence_eq_char {b : UInt8} {n start least m : Nat} {rest : Text} {c : Char}
    (h : firstPiece.sequence b rest n start least = (.char c, m)) :
    m = n ∧ least ≤ c.toNat ∧ continuation n start rest = some c.toNat := by
  unfold firstPiece.sequence at h
  split at h
  case h_2 => cases h
  case h_1 value hc =>
    split at h <;> cases h
    case isTrue.refl hv =>
      have ht := toNat_ofNat_of_isValidChar hv.right
      exact ⟨rfl, ht.symm ▸ hv.left, ht.symm ▸ hc⟩

-- A character is read only from its encoding.
theorem encode_of_firstPiece {b : UInt8} {rest : Text} {c : Char} {n : Nat}
    (h : firstPiece b rest = (.char c, n)) :
    b :: rest = String.utf8EncodeChar c ++ rest.drop n := by
  have hb : b.toNat < 256 := b.toNat_lt
  have he {k : Nat} (hk : k = b.toNat) : UInt8.ofNat k = b := hk ▸ UInt8.ofNat_toNat
  simp only [firstPiece] at h
  split at h
  case isTrue h₁ =>
    cases h
    have ht : (Char.ofNat b.toNat).toNat = b.toNat := toNat_ofNat_of_isValidChar (.inl (by omega))
    rw [encode_one (by omega), he ht]
    rfl
  case isFalse h₁ =>
    split at h
    case isTrue h₂ => cases h
    case isFalse h₂ =>
      split at h
      case isTrue h₃ =>
        have ⟨hm, hl, hc⟩ := sequence_eq_char h
        have ⟨k, hk, rest', hr, hc⟩ := continuation_eq_some hc
        simp only [continuation, Option.some.injEq] at hc
        subst hm hr
        rw [encode_two hl (by omega), he (k := c.toNat / 64 + 0xC0) (by omega),
          show c.toNat % 64 = k by omega]
        rfl
      case isFalse h₃ =>
        split at h
        case isTrue h₄ =>
          have ⟨hm, hl, hc⟩ := sequence_eq_char h
          have ⟨k₁, hk₁, rest₁, hr₁, hc⟩ := continuation_eq_some hc
          have ⟨k₂, hk₂, rest₂, hr₂, hc⟩ := continuation_eq_some hc
          simp only [continuation, Option.some.injEq] at hc
          subst hm hr₁ hr₂
          rw [encode_three hl (by omega), he (k := c.toNat / 4096 + 0xE0) (by omega),
            show c.toNat / 64 % 64 = k₁ by omega, show c.toNat % 64 = k₂ by omega]
          rfl
        case isFalse h₄ =>
          have hv := toNat_lt c
          have ⟨hm, hl, hc⟩ := sequence_eq_char h
          have ⟨k₁, hk₁, rest₁, hr₁, hc⟩ := continuation_eq_some hc
          have ⟨k₂, hk₂, rest₂, hr₂, hc⟩ := continuation_eq_some hc
          have ⟨k₃, hk₃, rest₃, hr₃, hc⟩ := continuation_eq_some hc
          simp only [continuation, Option.some.injEq] at hc
          subst hm hr₁ hr₂ hr₃
          rw [encode_four hl, he (k := c.toNat / 262144 + 0xF0) (by omega),
            show c.toNat / 4096 % 64 = k₁ by omega, show c.toNat / 64 % 64 = k₂ by omega,
            show c.toNat % 64 = k₃ by omega]
          rfl

theorem pieces_go_skip (n : Nat) (done : List Piece) (t : Text) :
    pieces.go n done t = pieces.go 0 done (t.drop n) := by
  induction t generalizing n
  case nil => simp [pieces.go]
  case cons b t hi => cases n <;> simp [pieces.go, hi]

theorem pieces_go_done (n : Nat) (done : List Piece) (t : Text) :
    pieces.go n done t = done.reverse ++ pieces.go n [] t := by
  induction t generalizing n done
  case nil => simp [pieces.go]
  case cons b t hi =>
    cases n
    case succ n => simpa [pieces.go] using hi n done
    case zero =>
      rw [pieces.go, hi _ (_ :: done), pieces.go, hi _ [_]]
      simp

theorem pieces_encode_append (c : Char) (rest : Text) :
    pieces (String.utf8EncodeChar c ++ rest) = .char c :: pieces rest := by
  have ⟨b, bs, hb, hp⟩ := firstPiece_encode c rest
  rw [hb, List.cons_append, pieces, pieces.go, hp, pieces_go_skip, List.drop_left,
    pieces_go_done]
  rfl

theorem chars_ofChars_append (cs : List Char) (rest : Text) :
    (ofChars cs ++ rest).chars = cs ++ rest.chars := by
  induction cs
  case nil => rfl
  case cons c cs hi =>
    simp only [chars, ofChars] at hi
    simp [chars, ofChars, pieces_encode_append, hi, Piece.toChar]

theorem chars_ofChars (cs : List Char) : (ofChars cs).chars = cs := by
  simpa [chars, pieces, pieces.go] using chars_ofChars_append cs []

theorem trimStart_go_skip (n : Nat) (t : Text) : trimStart.go n t = trimStart (t.drop n) := by
  induction t generalizing n
  case nil => simp [trimStart, trimStart.go]
  case cons b t hi =>
    cases n
    case zero => rfl
    case succ n => simpa [trimStart.go] using hi n

theorem trimStart_ofChars_append {cs : List Char} (h : ∀ c ∈ cs, isWhiteSpace c) (rest : Text) :
    trimStart (ofChars cs ++ rest) = trimStart rest := by
  induction cs
  case nil => rfl
  case cons c cs hi =>
    have ⟨b, bs, hb, hp⟩ := firstPiece_encode c (ofChars cs ++ rest)
    have hc : ofChars (c :: cs) ++ rest = b :: (bs ++ (ofChars cs ++ rest)) := by
      simp [ofChars, hb]
    have hw : isWhiteSpace (Piece.char c).toChar := h c List.mem_cons_self
    rw [hc, trimStart, trimStart.go, hp, if_pos hw, trimStart_go_skip, List.drop_left]
    exact hi fun c hm => h c (List.mem_cons_of_mem _ hm)

-- What is trimmed off is white space.
theorem exists_trimStart (t : Text) :
    ∃ cs, (∀ c ∈ cs, isWhiteSpace c) ∧ t = ofChars cs ++ trimStart t := by
  match t with
  | [] => exact ⟨[], by simp, rfl⟩
  | b :: rest =>
    rw [trimStart, trimStart.go]
    split
    case isFalse => exact ⟨[], by simp, rfl⟩
    case isTrue hw =>
      cases hp : (firstPiece b rest).1
      case stray =>
        rw [hp] at hw
        exact absurd hw (show ¬isWhiteSpace replacement by decide)
      case char c =>
        have he := encode_of_firstPiece (n := (firstPiece b rest).2) (Prod.ext hp rfl)
        have ⟨cs, hcs, ht⟩ := exists_trimStart (rest.drop (firstPiece b rest).2)
        refine ⟨c :: cs, ?_, ?_⟩
        · simp only [List.mem_cons, forall_eq_or_imp]
          exact ⟨by simpa [hp, Piece.toChar] using hw, hcs⟩
        · rw [trimStart_go_skip]
          simp only [ofChars, List.flatMap_cons, List.append_assoc] at ht ⊢
          rw [←ht, he]
termination_by t.length
decreasing_by
  rw [List.length_drop, List.length_cons]
  omega

end ByteAsm.Text
