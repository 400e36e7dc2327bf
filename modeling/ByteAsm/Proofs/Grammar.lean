import ByteAsm.Proofs.Bytes
import ByteAsm.Proofs.Utf8

namespace ByteAsm

section

variable {α : Type} {p : α → Bool} {w rest : List α}

theorem takeWhile_append_of_stop (hw : ∀ c ∈ w, p c) (hr : ¬rest.head?.any p) :
    (w ++ rest).takeWhile p = w := by
  rw [List.takeWhile_append_of_pos hw]
  cases rest <;> simp_all

theorem dropWhile_append_of_stop (hw : ∀ c ∈ w, p c) (hr : ¬rest.head?.any p) :
    (w ++ rest).dropWhile p = rest := by
  rw [List.dropWhile_append_of_pos hw]
  cases rest <;> simp_all

theorem dropWhile_head (p : UInt8 → Bool) (t : Text) : ¬(t.dropWhile p).head?.any p := by
  cases h : t.dropWhile p
  case nil => simp
  case cons c rest =>
    have := List.head_dropWhile_not p (h ▸ List.cons_ne_nil c rest)
    simp_all

theorem forall_mem_takeWhile (p : UInt8 → Bool) (t : Text) : ∀ c ∈ t.takeWhile p, p c :=
  fun _ h => List.all_eq_true.mp List.all_takeWhile _ h

end

namespace Operand

-- What may be written for an operand: a word in brackets, maybe with a signed offset, a literal in
-- quotes, whose first byte may be anything, or a word.
inductive Written : Text → Prop
  | bracketed {w : Text} : w ≠ [] → (∀ c ∈ w, Byte.isWord c) →
    Written ('['.toUInt8 :: (w ++ [']'.toUInt8]))
  | displaced {w ds : Text} {sign : UInt8} : w ≠ [] → (∀ c ∈ w, Byte.isWord c) →
    (sign = '+'.toUInt8 ∨ sign = '-'.toUInt8) → ds ≠ [] → (∀ c ∈ ds, Byte.isDigit c) →
    Written ('['.toUInt8 :: (w ++ sign :: ds ++ [']'.toUInt8]))
  | quoted {q c : UInt8} {t : Text} : Line.isQuote q → (∀ c ∈ t, c ≠ q) →
    Written (q :: c :: (t ++ [q]))
  | word {c : UInt8} {w : Text} : Word.startsLabel c ∨ Byte.isDigit c → (∀ c ∈ w, Byte.isWord c) →
    Written (c :: w)

-- A word goes as far as it can.
def EndsBefore (op rest : Text) : Prop :=
  op.head?.any (fun c => Word.startsLabel c || Byte.isDigit c) → ¬rest.head?.any Byte.isWord

end Operand

namespace Line

theorem bracket_not_start : ¬(Word.startsLabel '['.toUInt8 || Byte.isDigit '['.toUInt8) := by
  decide

theorem start_ne_bracket {c : UInt8} (h : Word.startsLabel c || Byte.isDigit c) :
    c ≠ '['.toUInt8 ∧ ¬isQuote c := by
  have hne {x : UInt8} (hx : (Word.startsLabel x || Byte.isDigit x) = false) : c ≠ x :=
    Byte.ne_of_holds (p := fun c => Word.startsLabel c || Byte.isDigit c) h hx
  refine ⟨hne (by decide), ?_⟩
  simp only [isQuote, Bool.or_eq_true, beq_iff_eq, not_or]
  exact ⟨hne (by decide), hne (by decide)⟩

variable {t op rest : Text}

-- A sign with digits behind it.
def IsOffset (t : Text) : Prop :=
  ∃ sign ds, t = sign :: ds ∧ (sign = '+'.toUInt8 ∨ sign = '-'.toUInt8) ∧ ds ≠ [] ∧
    ∀ c ∈ ds, Byte.isDigit c

theorem offset?_eq_some {offset : Text} (h : offset? t = some (offset, rest)) :
    t = offset ++ rest ∧ (offset = [] ∨ IsOffset offset) := by
  cases t
  case nil =>
    cases h
    exact ⟨rfl, .inl rfl⟩
  case cons c t =>
    simp only [offset?] at h
    split at h
    case isFalse =>
      cases h
      exact ⟨rfl, .inl rfl⟩
    case isTrue hs =>
      split at h <;> cases h
      case isFalse hn =>
        refine ⟨by simp, .inr ⟨c, _, rfl, by simpa using hs, ?_, forall_mem_takeWhile _ _⟩⟩
        simpa using hn

theorem offset?_append {offset : Text} (ho : IsOffset offset) (hr : ¬rest.head?.any Byte.isDigit) :
    offset? (offset ++ rest) = some (offset, rest) := by
  have ⟨sign, ds, he, hs, hn, hd⟩ := ho
  have hs : sign == '+'.toUInt8 || sign == '-'.toUInt8 := by simpa using hs
  subst he
  simp only [List.cons_append, offset?, if_pos hs, takeWhile_append_of_stop hd hr,
    dropWhile_append_of_stop hd hr, List.isEmpty_iff, if_neg hn]

theorem bracketed?_eq_some (h : bracketed? t = some (op, rest)) :
    t = op ++ rest ∧ Operand.Written ('['.toUInt8 :: op) := by
  have hw := forall_mem_takeWhile Byte.isWord t
  have ht := List.takeWhile_append_dropWhile (p := Byte.isWord) (l := t)
  simp only [bracketed?] at h
  split at h <;> try contradiction
  case isFalse hn =>
    rw [List.isEmpty_iff] at hn
    split at h <;> try contradiction
    case h_1 offset c rest' ho =>
      have ⟨hd, hs⟩ := offset?_eq_some ho
      split at h <;> cases h
      case isTrue hc =>
        cases LawfulBEq.eq_of_beq hc
        refine ⟨by simpa [hd] using ht.symm, ?_⟩
        cases hs
        case inl ho =>
          subst ho
          simpa using Operand.Written.bracketed hn hw
        case inr ho =>
          have ⟨sign, ds, he, hs, hn', hds⟩ := ho
          subst he
          exact Operand.Written.displaced hn hw hs hn' hds

theorem quoted?_eq_some {q : UInt8} (h : quoted? q t = some (op, rest)) :
    t = op ++ rest ∧ ∃ c body, op = c :: (body ++ [q]) ∧ ∀ c ∈ body, c ≠ q := by
  cases t
  case nil => simp [quoted?] at h
  case cons c t =>
    have hb := forall_mem_takeWhile (· != q) t
    have ht := List.takeWhile_append_dropWhile (p := (· != q)) (l := t)
    have hd := dropWhile_head (· != q) t
    simp only [quoted?] at h
    split at h <;> cases h
    case h_2 c' he =>
      rw [he] at ht hd
      have hq : c' = q := by simpa using hd
      subst hq
      refine ⟨by simpa using ht.symm, c, _, rfl, ?_⟩
      simpa using hb

theorem quoted?_append {q c : UInt8} {body : Text} (h : ∀ c ∈ body, c ≠ q) (rest : Text) :
    quoted? q (c :: (body ++ q :: rest)) = some (c :: (body ++ [q]), rest) := by
  have hb : ∀ c ∈ body, (c != q) = true := by simpa using h
  have hr : ¬(q :: rest).head?.any (· != q) := by simp
  simp only [quoted?, dropWhile_append_of_stop hb hr, takeWhile_append_of_stop hb hr]
  rfl

theorem operand?_eq_some (h : operand? t = some (op, rest)) :
    t = op ++ rest ∧ Operand.Written op ∧ Operand.EndsBefore op rest := by
  cases t
  case nil => simp [operand?] at h
  case cons c t =>
    simp only [operand?] at h
    split at h
    case isTrue hc =>
      cases LawfulBEq.eq_of_beq hc
      simp only [Option.map_eq_some_iff] at h
      have ⟨⟨x, rest'⟩, hb, he⟩ := h
      cases he
      have ⟨ht, hw⟩ := bracketed?_eq_some hb
      exact ⟨by simp [ht], hw, fun hs => absurd hs bracket_not_start⟩
    case isFalse =>
      split at h
      case isTrue hq =>
        simp only [Option.map_eq_some_iff] at h
        have ⟨⟨x, rest'⟩, hb, he⟩ := h
        cases he
        have ⟨ht, c', body, hx, hn⟩ := quoted?_eq_some hb
        subst hx
        refine ⟨by simp [ht], .quoted hq hn, fun hs => ?_⟩
        exact absurd hq (start_ne_bracket hs).right
      case isFalse =>
        split at h <;> cases h
        case isTrue hs =>
          refine ⟨by simp, .word (by simpa using hs) (forall_mem_takeWhile _ _), fun _ => ?_⟩
          exact dropWhile_head _ _

theorem operand?_bracket (t : Text) :
    operand? ('['.toUInt8 :: t) = (bracketed? t).map fun (x, rest) => ('['.toUInt8 :: x, rest) := by
  rw [operand?, if_pos (beq_self_eq_true _)]

theorem operand?_append (ho : Operand.Written op) (hr : Operand.EndsBefore op rest) :
    operand? (op ++ rest) = some (op, rest) := by
  cases ho
  case bracketed w hn hw =>
    have hs : ¬(']'.toUInt8 :: rest).head?.any Byte.isWord := by simp; decide
    have ho : offset? (']'.toUInt8 :: rest) = some ([], ']'.toUInt8 :: rest) := rfl
    have he : w ++ [']'.toUInt8] ++ rest = w ++ ']'.toUInt8 :: rest := by simp
    rw [List.cons_append, he, operand?_bracket]
    simp [bracketed?, takeWhile_append_of_stop hw hs, dropWhile_append_of_stop hw hs, hn, ho]
  case displaced w ds sign hn hw hs hn' hd =>
    have hs' : ¬(sign :: ds ++ ']'.toUInt8 :: rest).head?.any Byte.isWord := by
      cases hs <;> subst sign <;> simp <;> decide
    have ho : offset? (sign :: ds ++ ']'.toUInt8 :: rest) =
        some (sign :: ds, ']'.toUInt8 :: rest) :=
      offset?_append ⟨sign, ds, rfl, hs, hn', hd⟩ (by simp; decide)
    have he : w ++ sign :: ds ++ [']'.toUInt8] ++ rest =
        w ++ (sign :: ds ++ ']'.toUInt8 :: rest) := by
      simp
    rw [List.cons_append, he, operand?_bracket]
    simp only [bracketed?, takeWhile_append_of_stop hw hs', dropWhile_append_of_stop hw hs', ho]
    simp [hn]
  case quoted q c body hq hb =>
    have hc : (q == '['.toUInt8) = false := by simpa using Byte.ne_of_holds hq (by decide)
    simp [operand?, hc, hq, quoted?_append hb]
  case word c w hs hw =>
    have hs : Word.startsLabel c || Byte.isDigit c := by simpa using hs
    have ⟨hb, hq⟩ := start_ne_bracket hs
    have hr := hr hs
    simp [operand?, hb, hq, hs, takeWhile_append_of_stop hw hr, dropWhile_append_of_stop hw hr]

-- White space, then nothing or a comment.
def Tail (t : Text) : Prop :=
  ∃ cs rest, (∀ c ∈ cs, Text.isWhiteSpace c) ∧ t = Text.ofChars cs ++ rest ∧
    (rest = [] ∨ rest.head? = some ';'.toUInt8)

theorem isTail_iff : isTail t ↔ Tail t := by
  constructor
  case mp =>
    intro h
    have ⟨cs, hcs, ht⟩ := Text.exists_trimStart t
    refine ⟨cs, Text.trimStart t, hcs, ht, ?_⟩
    unfold isTail at h
    split at h
    case h_1 hn => exact .inl hn
    case h_2 hc => exact .inr (by simpa [hc] using h)
  case mpr =>
    intro ⟨cs, rest, hcs, ht, hr⟩
    rw [isTail, ht, Text.trimStart_ofChars_append hcs]
    cases hr
    case inl hr => simp [hr, Text.trimStart, Text.trimStart.go]
    case inr hr =>
      cases rest
      case nil => rfl
      case cons c rest =>
        cases hr
        have hp : Text.firstPiece ';'.toUInt8 rest = (.char ';', 0) := rfl
        have hs : ¬Text.isWhiteSpace (Text.Piece.char ';').toChar := by decide
        simp [Text.trimStart, Text.trimStart.go, hp, hs]

-- A blank is white space, so blanks in front make no difference to a tail.
theorem isTail_skipBlanks (t : Text) : isTail (skipBlanks t) = isTail t := by
  induction t
  case nil => rfl
  case cons c t hi =>
    by_cases hc : Byte.isBlank c
    case neg => simp [skipBlanks, hc]
    case pos =>
      have hb : c = ' '.toUInt8 ∨ c = '\t'.toUInt8 := by simpa [Byte.isBlank] using hc
      have ht : Text.trimStart (c :: t) = Text.trimStart t := by
        cases hb <;> subst c <;> rfl
      have hs : skipBlanks (c :: t) = skipBlanks t := List.dropWhile_cons_of_pos hc
      rw [hs, hi, isTail, isTail, ht]

-- The bytes of white space: ASCII white space, and all bytes of other characters.
def isSpaceByte (b : UInt8) : Bool :=
  9 ≤ b && b ≤ 13 || b == 32 || 128 ≤ b

theorem isSpaceByte_of_mem_encode {c : Char} (h : Text.isWhiteSpace c) :
    ∀ b ∈ String.utf8EncodeChar c, isSpaceByte b := by
  intro b hb
  by_cases hc : c.toNat < 0x80
  case neg =>
    have hb := Text.le_of_mem_encode (Nat.le_of_not_lt hc) b hb
    simp [isSpaceByte, UInt8.le_iff_toNat_le, hb]
  case pos =>
    rw [Text.encode_one hc, List.mem_singleton] at hb
    have ht : b.toNat = c.toNat := by
      rw [hb]
      exact Text.toNat_ofNat_add (k := c.toNat) (m := 0) (by omega)
    simp only [Text.isWhiteSpace, Bool.or_eq_true, Bool.and_eq_true, decide_eq_true_eq,
      beq_iff_eq] at h
    simp only [isSpaceByte, Bool.or_eq_true, Bool.and_eq_true, decide_eq_true_eq, beq_iff_eq,
      UInt8.le_iff_toNat_le, ←UInt8.toNat_inj, ht]
    simp
    omega

-- The bytes that go on with none of the parts of a line.
def endsPart (c : UInt8) : Bool :=
  !(Byte.isWord c || Word.startsLabel c || isQuote c || c == '['.toUInt8 || c == ':'.toUInt8 ||
    c == ','.toUInt8)

theorem isSpaceByte_iff {b : UInt8} : isSpaceByte b ↔
    (9 ≤ b.toNat ∧ b.toNat ≤ 13) ∨ b.toNat = 32 ∨ 128 ≤ b.toNat := by
  simp [isSpaceByte, UInt8.le_iff_toNat_le, ←UInt8.toNat_inj, or_assoc]

theorem not_isWord_of_isSpaceByte {b : UInt8} (h : isSpaceByte b) : ¬Byte.isWord b := by
  simp only [isSpaceByte_iff, Byte.isWord, Bool.or_eq_true, Byte.isLetter_iff, Byte.isDigit_iff,
    beq_iff_eq, ←UInt8.toNat_inj] at h ⊢
  simp [Char.toUInt8]
  omega

theorem endsPart_of_isSpaceByte {b : UInt8} (h : isSpaceByte b) : endsPart b := by
  have hne {x : UInt8} (hx : isSpaceByte x = false) : b ≠ x := Byte.ne_of_holds h hx
  have hw := not_isWord_of_isSpaceByte h
  have hl : ¬Word.startsLabel b :=
    fun hl => hw (Word.isWord_of_startsLabel hl (hne (by decide)))
  simp only [endsPart, hw, hl, isQuote]
  simp [hne (x := '"'.toUInt8) (by decide), hne (x := '\''.toUInt8) (by decide),
    hne (x := '['.toUInt8) (by decide), hne (x := ':'.toUInt8) (by decide),
    hne (x := ','.toUInt8) (by decide)]

theorem Tail.endsPart_head {c : UInt8} (h : Tail (c :: t)) : endsPart c := by
  obtain ⟨cs, rest, hcs, ht, hr⟩ := h
  cases cs
  case nil =>
    simp only [Text.ofChars, List.flatMap_nil, List.nil_append] at ht
    subst ht
    cases hr
    case inl hr => exact absurd hr (List.cons_ne_nil c t)
    case inr hr =>
      cases hr
      decide
  case cons w ws =>
    have hw := isSpaceByte_of_mem_encode (hcs w List.mem_cons_self)
    obtain ⟨b, bs, hb, _⟩ := Text.firstPiece_encode w []
    simp only [Text.ofChars, List.flatMap_cons, hb, List.cons_append, List.cons.injEq] at ht
    rw [hb] at hw
    exact ht.left ▸ endsPart_of_isSpaceByte (hw b List.mem_cons_self)

def Blanks (t : Text) : Prop :=
  ∀ c ∈ t, Byte.isBlank c

theorem blanks_nil : Blanks [] :=
  nofun

theorem blanks_space : Blanks [' '.toUInt8] :=
  List.forall_mem_singleton.mpr rfl

def IsMnemonic (t : Text) : Prop :=
  2 ≤ t.length ∧ t.length ≤ 4 ∧ ∀ c ∈ t, Byte.isLetter c

theorem IsMnemonic.isAscii (h : IsMnemonic t) : t.isAscii :=
  List.all_eq_true.mpr fun c hc => Byte.isAscii_of_isLetter (h.right.right c hc)

inductive LabelWritten : Option Text → Text → Prop
  | none : LabelWritten none []
  | some {name : Text} : Word.isLabel name → LabelWritten (some name) (name ++ [':'.toUInt8])

inductive OperandsWritten : List Text → Text → Prop
  | none : OperandsWritten [] []
  | one {b op : Text} : Blanks b → b ≠ [] → Operand.Written op → OperandsWritten [op] (b ++ op)
  | two {b b₁ b₂ op₁ op₂ : Text} : Blanks b → b ≠ [] → Operand.Written op₁ → Blanks b₁ →
    Blanks b₂ → Operand.Written op₂ →
    OperandsWritten [op₁, op₂] (b ++ (op₁ ++ (b₁ ++ ','.toUInt8 :: (b₂ ++ op₂))))

inductive CommandWritten : Option Command → Text → Prop
  | none : CommandWritten none []
  | some {m o : Text} {ops : List Text} : IsMnemonic m → OperandsWritten ops o →
    CommandWritten (some ⟨m, ops⟩) (m ++ o)

-- A label, a command and a tail, with blanks before the first two.
inductive Written : Text → Line → Prop
  | mk {b₁ b₂ l c tail : Text} {label : Option Text} {command : Option Command} :
    Blanks b₁ → LabelWritten label l → Blanks b₂ → CommandWritten command c → Tail tail →
    Written (b₁ ++ (l ++ (b₂ ++ (c ++ tail)))) ⟨label, command⟩

theorem exists_skipBlanks (t : Text) : ∃ b, Blanks b ∧ t = b ++ skipBlanks t :=
  ⟨t.takeWhile Byte.isBlank, forall_mem_takeWhile _ _, List.takeWhile_append_dropWhile.symm⟩

theorem skipBlanks_append {b : Text} (hb : Blanks b) (t : Text) :
    skipBlanks (b ++ t) = skipBlanks t :=
  List.dropWhile_append_of_pos hb

theorem skipBlanks_of_head (h : ¬t.head?.any Byte.isBlank) : skipBlanks t = t := by
  cases t <;> simp_all [skipBlanks]

theorem label?_eq_some {name : Text} (h : label? t = some (name, rest)) :
    Word.isLabel name ∧ t = name ++ ':'.toUInt8 :: rest := by
  cases t
  case nil => simp [label?, name?] at h
  case cons c t =>
    simp only [label?, name?] at h
    split at h <;> try contradiction
    case h_1 name' c' rest' hn =>
      split at hn <;> try contradiction
      case isTrue hs =>
        injection hn with hn
        injection hn with hn hd
        split at h <;> try contradiction
        case isTrue hc =>
          cases h
          cases LawfulBEq.eq_of_beq hc
          have ht := List.takeWhile_append_dropWhile (p := Byte.isWord) (l := t)
          rw [hd] at ht
          subst hn
          refine ⟨?_, by simp [ht]⟩
          simp [Word.isLabel, hs]

theorem mnemonic?_eq_some {m : Text} (h : mnemonic? t = some (m, rest)) :
    IsMnemonic m ∧ t = m ++ rest := by
  simp only [mnemonic?] at h
  split at h <;> cases h
  case isTrue hm =>
    exact ⟨⟨hm.left, hm.right.left, forall_mem_takeWhile _ _⟩,
      List.takeWhile_append_dropWhile.symm⟩

theorem secondOperand?_eq_some (h : secondOperand? t = some (op, rest)) :
    ∃ b₁ b₂, Blanks b₁ ∧ Blanks b₂ ∧ Operand.Written op ∧
      t = b₁ ++ ','.toUInt8 :: (b₂ ++ (op ++ rest)) := by
  have ⟨b₁, hb₁, ht₁⟩ := exists_skipBlanks t
  unfold secondOperand? at h
  split at h <;> try contradiction
  case h_2 c rest' hs =>
    split at h <;> try contradiction
    case isTrue hc =>
      cases LawfulBEq.eq_of_beq hc
      have ⟨b₂, hb₂, ht₂⟩ := exists_skipBlanks rest'
      have ⟨ho, hw, _⟩ := operand?_eq_some h
      rw [hs, ht₂, ho] at ht₁
      exact ⟨b₁, b₂, hb₁, hb₂, hw, ht₁⟩

theorem operands_written (t : Text) :
    ∃ o, OperandsWritten (operands t).1 o ∧ t = o ++ (operands t).2 := by
  unfold operands
  split
  case h_1 => exact ⟨[], .none, rfl⟩
  case h_2 c t =>
    split
    case isFalse => exact ⟨[], .none, rfl⟩
    case isTrue hc =>
      have ⟨b, hb, ht⟩ := exists_skipBlanks (c :: t)
      have hn : b ≠ [] := by
        intro hn
        subst hn
        have := dropWhile_head Byte.isBlank (c :: t)
        simp only [skipBlanks, List.nil_append] at ht
        rw [←ht] at this
        simp [hc] at this
      split
      case h_1 => exact ⟨[], .none, rfl⟩
      case h_2 first rest ho =>
        have ⟨ho, hw, _⟩ := operand?_eq_some ho
        rw [ho] at ht
        split
        case h_1 => exact ⟨b ++ first, .one hb hn hw, by simpa using ht⟩
        case h_2 second rest' hs =>
          have ⟨b₁, b₂, hb₁, hb₂, hw₂, hr⟩ := secondOperand?_eq_some hs
          exact ⟨_, .two hb hn hw hb₁ hb₂ hw₂, by simpa [hr] using ht⟩

theorem splitLabel_written (t : Text) : ∃ b l, Blanks b ∧ LabelWritten (splitLabel t).1 l ∧
    t = b ++ (l ++ (splitLabel t).2) := by
  have ⟨b, hb, ht⟩ := exists_skipBlanks t
  unfold splitLabel
  split
  case h_1 => exact ⟨b, [], hb, .none, ht⟩
  case h_2 name rest hl =>
    have ⟨hn, hr⟩ := label?_eq_some hl
    rw [hr] at ht
    exact ⟨b, _, hb, .some hn, by simpa using ht⟩

theorem splitCommand_written (t : Text) : ∃ b c, Blanks b ∧ CommandWritten (splitCommand t).1 c ∧
    t = b ++ (c ++ (splitCommand t).2) := by
  have ⟨b, hb, ht⟩ := exists_skipBlanks t
  unfold splitCommand
  split
  case h_1 => exact ⟨[], [], by simp [Blanks], .none, rfl⟩
  case h_2 m rest hm =>
    have ⟨hm, hr⟩ := mnemonic?_eq_some hm
    have ⟨o, ho, hr'⟩ := operands_written rest
    refine ⟨b, _, hb, .some hm ho, ?_⟩
    rw [hr] at ht
    simpa [←hr'] using ht

theorem written_of_read {line : Line} (h : read t = .ok line) : Written t line := by
  have ⟨b₁, l, hb₁, hl, ht₁⟩ := splitLabel_written t
  have ⟨b₂, c, hb₂, hc, ht₂⟩ := splitCommand_written (splitLabel t).2
  simp only [read] at h
  split at h <;> cases h
  case isTrue hr =>
    have hw := Written.mk hb₁ hl hb₂ hc (isTail_iff.mp hr)
    rwa [←ht₂, ←ht₁] at hw

theorem isAscii_mnemonic {line : Line} {c : Command} (h : Written t line)
    (hc : line.command = some c) : c.mnemonic.isAscii := by
  cases h
  case mk hw _ =>
    subst hc
    cases hw
    case some hm _ => exact hm.isAscii

-- A text that goes on with none of the parts of a line.
def Stops (t : Text) : Prop :=
  ∀ c ∈ t.head?, endsPart c

theorem Tail.stops (h : Tail t) : Stops t := by
  cases t
  case nil => simp [Stops]
  case cons c t => simpa [Stops] using h.endsPart_head

theorem not_isWord_of_endsPart {c : UInt8} (h : endsPart c) : ¬Byte.isWord c :=
  fun hc => by simp [endsPart, hc] at h

theorem not_startsLabel_of_endsPart {c : UInt8} (h : endsPart c) : ¬Word.startsLabel c :=
  fun hc => by simp [endsPart, hc] at h

theorem not_isQuote_of_endsPart {c : UInt8} (h : endsPart c) : ¬isQuote c :=
  fun hc => by simp [endsPart, hc] at h

theorem Stops.not_word (h : Stops t) : ¬t.head?.any Byte.isWord := by
  cases t
  case nil => simp
  case cons c t => simpa using not_isWord_of_endsPart (h c rfl)

theorem Tail.skipBlanks (h : Tail t) : Tail (skipBlanks t) := by
  rwa [←isTail_iff, isTail_skipBlanks, isTail_iff]

-- No operand, label or mnemonic is found where nothing goes on.
theorem operand?_of_stops (h : Stops t) : operand? t = none := by
  cases t
  case nil => rfl
  case cons c t =>
    have hc := h c rfl
    have hb : c ≠ '['.toUInt8 := Byte.ne_of_holds hc (by decide)
    have hs : ¬(Word.startsLabel c || Byte.isDigit c) := by
      have hd : ¬Byte.isDigit c := fun hd => not_isWord_of_endsPart hc (Byte.isWord_of_isDigit hd)
      simp [not_startsLabel_of_endsPart hc, hd]
    simp only [operand?, beq_iff_eq, if_neg hb, if_neg (not_isQuote_of_endsPart hc), if_neg hs]

theorem label?_of_stops (h : Stops t) : label? t = none := by
  cases t
  case nil => rfl
  case cons c t => simp [label?, name?, not_startsLabel_of_endsPart (h c rfl)]

theorem mnemonic?_of_stops (h : Stops t) : mnemonic? t = none := by
  cases t
  case nil => rfl
  case cons c t =>
    have hl : ¬Byte.isLetter c :=
      fun hl => not_isWord_of_endsPart (h c rfl) (Byte.isWord_of_isLetter hl)
    simp [mnemonic?, hl]

theorem secondOperand?_of_tail (h : Tail t) : secondOperand? t = none := by
  unfold secondOperand?
  split
  case h_1 => rfl
  case h_2 c rest hc =>
    have hs : endsPart c := (hc ▸ h.skipBlanks).stops c rfl
    have hn : c ≠ ','.toUInt8 := Byte.ne_of_holds hs (by decide)
    simp [hn]

-- A part of a line starts with a byte that does not end one.
def Starts (t : Text) : Prop :=
  ∃ c ∈ t.head?, ¬endsPart c

theorem Starts.skipBlanks (h : Starts t) : skipBlanks t = t := by
  have ⟨c, hc, he⟩ := h
  have hb : ¬Byte.isBlank c := by
    simp only [Byte.isBlank, Bool.or_eq_true, beq_iff_eq]
    intro hb
    cases hb <;> subst c <;> exact he (by decide)
  refine skipBlanks_of_head ?_
  simpa [Option.mem_def.mp hc] using hb

theorem Starts.append (h : Starts t) (rest : Text) : Starts (t ++ rest) := by
  have ⟨c, hc, he⟩ := h
  exact ⟨c, by simp [Option.mem_def.mp hc], he⟩

theorem starts_of_operand (h : Operand.Written op) : Starts op := by
  cases h
  case bracketed => exact ⟨_, rfl, by decide⟩
  case displaced => exact ⟨_, rfl, by decide⟩
  case quoted h _ => exact ⟨_, rfl, fun he => not_isQuote_of_endsPart he h⟩
  case word h _ =>
    refine ⟨_, rfl, fun he => ?_⟩
    cases h
    case inl hl => exact not_startsLabel_of_endsPart he hl
    case inr hd => exact not_isWord_of_endsPart he (Byte.isWord_of_isDigit hd)

theorem starts_of_mnemonic {m : Text} (h : IsMnemonic m) : Starts m := by
  have ⟨hl, hu, hm⟩ := h
  cases m
  case nil => simp at hl
  case cons c m =>
    have hc := Byte.isWord_of_isLetter (hm c List.mem_cons_self)
    exact ⟨c, rfl, fun he => not_isWord_of_endsPart he hc⟩

theorem starts_of_label {name : Text} (h : Word.isLabel name) : Starts name := by
  cases name
  case nil => contradiction
  case cons c name =>
    simp only [Word.isLabel, Bool.and_eq_true] at h
    exact ⟨c, rfl, fun he => not_startsLabel_of_endsPart he h.left⟩

theorem label?_append {name : Text} (h : Word.isLabel name) (rest : Text) :
    label? (name ++ ':'.toUInt8 :: rest) = some (name, rest) := by
  cases name
  case nil => contradiction
  case cons c name =>
    simp only [Word.isLabel, Bool.and_eq_true, List.all_eq_true] at h
    have hr : ¬(':'.toUInt8 :: rest).head?.any Byte.isWord := by simp; decide
    simp [label?, name?, h.left, takeWhile_append_of_stop h.right hr,
      dropWhile_append_of_stop h.right hr]

theorem mnemonic?_append {m : Text} (h : IsMnemonic m) (hr : ¬rest.head?.any Byte.isWord) :
    mnemonic? (m ++ rest) = some (m, rest) := by
  have hr' : ¬rest.head?.any Byte.isLetter := by
    cases rest
    case nil => simp
    case cons c rest =>
      simp only [List.head?_cons, Option.any_some] at hr ⊢
      exact fun hc => hr (Byte.isWord_of_isLetter hc)
  simp only [mnemonic?, takeWhile_append_of_stop h.right.right hr',
    dropWhile_append_of_stop h.right.right hr']
  exact if_pos ⟨h.left, h.right.left, hr⟩

-- A mnemonic is a name without a colon.
theorem label?_mnemonic {m : Text} (h : IsMnemonic m) (hr : ¬rest.head?.any Byte.isWord)
    (hc : rest.head? ≠ some ':'.toUInt8) : label? (m ++ rest) = none := by
  have ⟨hn, hu, hm⟩ := h
  cases m
  case nil => simp at hn
  case cons c m =>
    simp only [List.forall_mem_cons] at hm
    have hw : ∀ c ∈ m, Byte.isWord c := fun c hc => Byte.isWord_of_isLetter (hm.right c hc)
    have hs : Word.startsLabel c := Word.startsLabel_of_isLetter hm.left
    simp only [List.cons_append, label?, name?, if_pos hs,
      takeWhile_append_of_stop hw hr, dropWhile_append_of_stop hw hr]
    cases rest
    case nil => rfl
    case cons d rest =>
      simp only [List.head?_cons, ne_eq, Option.some.injEq] at hc
      simp [hc]

variable {ops : List Text} {o tail : Text}

theorem operands_blanks {b : Text} (hb : Blanks b) (hn : b ≠ [])
    (ho : operand? (skipBlanks t) = some (op, rest)) :
    operands (b ++ t) =
      match secondOperand? rest with
      | none => ([op], rest)
      | some (second, rest) => ([op, second], rest) := by
  have hs := skipBlanks_append hb t
  cases b
  case nil => contradiction
  case cons c b =>
    simp only [List.cons_append] at hs
    cases hr : secondOperand? rest <;>
      simp only [List.cons_append, operands, if_pos (hb c List.mem_cons_self), hs, ho, hr]

theorem secondOperand?_append {b₁ b₂ : Text} (hb₁ : Blanks b₁) (hb₂ : Blanks b₂)
    (ho : Operand.Written op) (he : Operand.EndsBefore op rest) :
    secondOperand? (b₁ ++ ','.toUInt8 :: (b₂ ++ (op ++ rest))) = some (op, rest) := by
  have hc : skipBlanks (','.toUInt8 :: (b₂ ++ (op ++ rest))) =
      ','.toUInt8 :: (b₂ ++ (op ++ rest)) := rfl
  rw [secondOperand?, skipBlanks_append hb₁, hc]
  simp [skipBlanks_append hb₂, ((starts_of_operand ho).append rest).skipBlanks,
    operand?_append ho he]

-- The text behind an operand or a mnemonic starts with a blank, a comma or a tail.
theorem not_word_of_blanks {b : Text} (hb : Blanks b) (ht : ¬t.head?.any Byte.isWord) :
    ¬(b ++ t).head?.any Byte.isWord := by
  cases b
  case nil => exact ht
  case cons c b => simpa using Byte.not_isWord_of_isBlank (hb c List.mem_cons_self)

theorem operands_append (ho : OperandsWritten ops o) (ht : Tail tail) :
    operands (o ++ tail) = (ops, tail) := by
  have he {op : Text} : Operand.EndsBefore op tail := fun _ => ht.stops.not_word
  cases ho
  case none =>
    cases tail
    case nil => rfl
    case cons c t => simp [operands, operand?_of_stops ht.skipBlanks.stops]
  case one b op hb hn hw =>
    have hf : operand? (skipBlanks (op ++ tail)) = some (op, tail) := by
      rw [((starts_of_operand hw).append tail).skipBlanks, operand?_append hw he]
    rw [List.append_assoc, operands_blanks hb hn hf, secondOperand?_of_tail ht]
  case two b b₁ b₂ op₁ op₂ hb hn hw₁ hb₁ hb₂ hw₂ =>
    have hr : ¬(b₁ ++ ','.toUInt8 :: (b₂ ++ (op₂ ++ tail))).head?.any Byte.isWord :=
      not_word_of_blanks hb₁ (by simp; decide)
    have hf : operand? (skipBlanks (op₁ ++ (b₁ ++ ','.toUInt8 :: (b₂ ++ (op₂ ++ tail))))) =
        some (op₁, b₁ ++ ','.toUInt8 :: (b₂ ++ (op₂ ++ tail))) := by
      rw [((starts_of_operand hw₁).append _).skipBlanks, operand?_append hw₁ fun _ => hr]
    have hc : b ++ (op₁ ++ (b₁ ++ ','.toUInt8 :: (b₂ ++ op₂))) ++ tail =
        b ++ (op₁ ++ (b₁ ++ ','.toUInt8 :: (b₂ ++ (op₂ ++ tail)))) := by
      simp
    rw [hc, operands_blanks hb hn hf, secondOperand?_append hb₁ hb₂ hw₂ he]

-- Operands start with a blank, if there are any.
theorem operands_head (ho : OperandsWritten ops o) (ht : Tail tail) :
    ¬(o ++ tail).head?.any Byte.isWord ∧ (o ++ tail).head? ≠ some ':'.toUInt8 := by
  have hb {b t : Text} (hb : Blanks b) (hn : b ≠ []) :
      ¬(b ++ t).head?.any Byte.isWord ∧ (b ++ t).head? ≠ some ':'.toUInt8 := by
    cases b
    case nil => contradiction
    case cons c b =>
      have hc := hb c List.mem_cons_self
      have hn : c ≠ ':'.toUInt8 := Byte.ne_of_holds hc (by decide)
      simpa [hn] using Byte.not_isWord_of_isBlank hc
  cases ho
  case none =>
    refine ⟨ht.stops.not_word, fun hc => ?_⟩
    exact Byte.ne_of_holds (ht.stops _ hc) (by decide) rfl
  case one b op hb' hn hw =>
    rw [List.append_assoc]
    exact hb hb' hn
  case two hb' hn _ _ _ _ =>
    rw [List.append_assoc]
    exact hb hb' hn

theorem splitCommand_append {b c : Text} {command : Option Command} (hb : Blanks b)
    (hc : CommandWritten command c) (ht : Tail tail) :
    (splitCommand (b ++ (c ++ tail))).1 = command ∧
      isTail (splitCommand (b ++ (c ++ tail))).2 := by
  cases hc
  case none =>
    have hm : mnemonic? (skipBlanks (b ++ ([] ++ tail))) = none := by
      rw [List.nil_append, skipBlanks_append hb]
      exact mnemonic?_of_stops ht.skipBlanks.stops
    simp only [splitCommand, hm, true_and]
    rw [←isTail_skipBlanks, List.nil_append, skipBlanks_append hb, isTail_skipBlanks]
    exact isTail_iff.mpr ht
  case some m o ops hm ho =>
    have hm' : mnemonic? (skipBlanks (b ++ (m ++ o ++ tail))) = some (m, o ++ tail) := by
      rw [skipBlanks_append hb, List.append_assoc,
        ((starts_of_mnemonic hm).append _).skipBlanks,
        mnemonic?_append hm (operands_head ho ht).left]
    simp only [splitCommand, hm', operands_append ho ht, true_and]
    exact isTail_iff.mpr ht

-- Without a label, the blanks before the command are skipped twice.
theorem exists_skipBlanks_command {c : Text} {command : Option Command}
    (hc : CommandWritten command c) (ht : Tail tail) :
    label? (skipBlanks (c ++ tail)) = none ∧
      ∃ tail', Tail tail' ∧ skipBlanks (c ++ tail) = c ++ tail' := by
  cases hc
  case none => exact ⟨label?_of_stops ht.skipBlanks.stops, _, ht.skipBlanks, rfl⟩
  case some m o ops hm ho =>
    have ⟨hw, hl⟩ := operands_head ho ht
    rw [List.append_assoc, ((starts_of_mnemonic hm).append _).skipBlanks]
    exact ⟨label?_mnemonic hm hw hl, tail, ht, (List.append_assoc ..).symm⟩

theorem read_of_written {line : Line} (h : Written t line) : read t = .ok line := by
  cases h
  case mk b₁ b₂ l c tail label command hb₁ hl hb₂ hc ht =>
    cases hl
    case none =>
      have ⟨hn, tail', ht', hs⟩ := exists_skipBlanks_command hc ht
      have hs' : skipBlanks (b₁ ++ ([] ++ (b₂ ++ (c ++ tail)))) = [] ++ (c ++ tail') := by
        rw [skipBlanks_append hb₁, List.nil_append, skipBlanks_append hb₂, hs, List.nil_append]
      have ⟨h₁, h₂⟩ := splitCommand_append blanks_nil hc ht'
      rw [hs, ←List.nil_append (c ++ tail')] at hn
      simp only [read, splitLabel, hs', hn]
      simp only [h₁, h₂, if_true]
    case some name hn =>
      have hl : label? (skipBlanks (b₁ ++ (name ++ [':'.toUInt8] ++ (b₂ ++ (c ++ tail))))) =
          some (name, b₂ ++ (c ++ tail)) := by
        have he : name ++ [':'.toUInt8] ++ (b₂ ++ (c ++ tail)) =
            name ++ ':'.toUInt8 :: (b₂ ++ (c ++ tail)) := by simp
        rw [skipBlanks_append hb₁, he, ((starts_of_label hn).append _).skipBlanks,
          label?_append hn]
      have ⟨h₁, h₂⟩ := splitCommand_append hb₂ hc ht
      simp only [read, splitLabel, hl, h₁, h₂, if_true]

theorem read_eq_ok_iff {line : Line} : read t = .ok line ↔ Written t line :=
  ⟨written_of_read, read_of_written⟩

end Line

end ByteAsm
