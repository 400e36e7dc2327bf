import ByteAsm.Proofs.Expanded
import ByteAsm.Proofs.SideBySide

namespace ByteAsm

-- Only the bytes behind the first one can close a literal.
theorem Line.quoted?_eq_none_iff {q : UInt8} {t : Text} : quoted? q t = none ↔ q ∉ t.tail := by
  cases t
  case nil => simp [quoted?]
  case cons c t =>
    constructor
    case mp =>
      intro h hm
      obtain ⟨body, rest, ht, hb⟩ := List.eq_append_cons_of_mem hm
      rw [List.tail_cons] at ht
      rw [ht, quoted?_append fun c hc he => hb (he.subst hc)] at h
      contradiction
    case mpr =>
      intro hm
      cases h : quoted? q (c :: t)
      case none => rfl
      case some found =>
        obtain ⟨ht, c', body, he, _⟩ := quoted?_eq_some h
        rw [he, List.cons_append, List.cons.injEq] at ht
        simp [ht.right] at hm

namespace Expansion

variable {value? : Text → Option Int} {t e p : Text}

theorem Settled.of_plain {c : UInt8} (hc : isPlain c) (h : Settled (c :: t)) : Settled t := by
  cases h
  case comment => exact absurd hc (by decide)
  case plain h => exact h
  case literal hq _ => simp [isPlain, hq] at hc

theorem Settled.of_plain_append (hp : ∀ c ∈ p, isPlain c) (h : Settled (p ++ t)) : Settled t := by
  induction p
  case nil => exact h
  case cons c p hi =>
    obtain ⟨hc, hp⟩ := List.forall_mem_cons.mp hp
    exact hi hp (h.of_plain hc)

-- A literal ends at the first quote behind its first byte, so there is one way to cut it off.
theorem Settled.of_literal {q c : UInt8} {body : Text} (hq : Line.isQuote q)
    (hb : ∀ c ∈ body, c ≠ q) (h : Settled (q :: c :: (body ++ q :: t))) : Settled t := by
  generalize hr : c :: (body ++ q :: t) = r at h
  have hl := Line.quoted?_append (c := c) hb t
  cases h
  case comment => exact absurd hq (by decide)
  case plain hc _ => simp [isPlain, hq] at hc
  case literal c' body' t' ht _ hb' =>
    have hl' := Line.quoted?_append (c := c') hb' t'
    rw [←hr, hl] at hl'
    simp only [Option.some.injEq, Prod.mk.injEq] at hl'
    exact hl'.right ▸ ht

-- A quote that nothing closes stays open in what the text expands to.
theorem Expands.quoted?_eq_none {q : UInt8} (h : Expands value? t e) (hq : Line.isQuote q)
    (hn : Line.quoted? q t = none) : Line.quoted? q e = none := by
  have hd : ¬Byte.isDigit q := by
    simp only [Line.isQuote, Bool.or_eq_true, beq_iff_eq] at hq
    cases hq <;> subst q <;> decide
  rw [Line.quoted?_eq_none_iff] at hn ⊢
  cases h
  case nil => exact hn
  case comment => exact hn
  case byte he => exact he.not_mem hd hn
  case literal he =>
    have hnot := he.not_mem hd
    simp_all
  case value n _ _ he =>
    refine mt List.mem_of_mem_tail (List.not_mem_append ?_ (he.not_mem hd ?_))
    case refine_1 => exact fun hm => hd (Numeral.isDigit_of_mem_natural hm)
    case refine_2 => simp_all

-- The comment is the last piece. What comes before it is cut as it was: an open quote or a dollar
-- sign that starts no expression would show in the expanded line.
theorem Expands.append_comment (h : Expands value? t e) (he : Settled e) (s : Text) :
    Expands value? (t ++ ';'.toUInt8 :: s) (e ++ ';'.toUInt8 :: s) := by
  induction h
  case nil => exact .comment
  case comment => exact .comment
  case byte c t e hl h hi =>
    cases he
    case comment => exact absurd rfl hl.comment
    case plain hc he => exact .byte (lone_of_isPlain hc _) (hi he)
    case literal c' body e he hq hb =>
      have hn := h.quoted?_eq_none hq (hl.literal hq)
      rw [Line.quoted?_append hb] at hn
      contradiction
  case literal c _ _ _ hq hb _ hi =>
    have h := Expands.literal (c := c) hq hb (hi (he.of_literal hq hb))
    simpa using h
  case value n hx hn _ hi =>
    have hp : ∀ c ∈ Numeral.natural n, isPlain c :=
      fun c hc => isPlain_of_holds (Numeral.isDigit_of_mem_natural hc) (by decide)
    have hx := expression?_append hx (';'.toUInt8 :: s)
    have h := Expands.value (by simpa using hx) hn (hi (he.of_plain_append hp))
    simpa using h

end Expansion

namespace Line

variable {t : Text} {line : Line}

theorem Tail.append_comment (h : Tail t) (s : Text) : Tail (t ++ ';'.toUInt8 :: s) := by
  obtain ⟨cs, rest, hcs, ht, hr⟩ := h
  refine ⟨cs, rest ++ ';'.toUInt8 :: s, hcs, by rw [ht, List.append_assoc], .inr ?_⟩
  cases hr
  case inl hr => rw [hr, List.nil_append, List.head?_cons]
  case inr hr => rw [List.head?_append, hr, Option.some_or]

theorem Written.append_comment (h : Written t line) (s : Text) :
    Written (t ++ ';'.toUInt8 :: s) line := by
  cases h
  case mk hb₁ hl hb₂ hc ht =>
    have h := Written.mk hb₁ hl hb₂ hc (ht.append_comment s)
    simpa using h

theorem read_append_comment (h : read t = .ok line) (s : Text) :
    read (t ++ ';'.toUInt8 :: s) = .ok line :=
  read_of_written ((written_of_read h).append_comment s)

theorem readIn_append_comment {value? : Text → Option Int} (h : readIn value? t = .ok line)
    (s : Text) : readIn value? (t ++ ';'.toUInt8 :: s) = .ok line := by
  obtain ⟨e, he, hr⟩ := readIn_eq_ok h
  have hs := read_append_comment hr s
  by_cases hm : Expansion.hasMark t
  case neg =>
    -- Without an expression the line is its own expansion, also if the comment holds a mark.
    simp only [Expansion.expand, if_neg hm, Except.ok.injEq] at he
    rw [←he] at hs
    simp only [readIn, Expansion.expand_of_read hs, hs]
  case pos =>
    rw [Expansion.expand, if_pos hm, Expansion.replace_eq_ok_iff] at he
    have hx := he.append_comment (Expansion.settled_of_written (written_of_read hr)) s
    have hm := Expansion.hasMark_append_left hm (';'.toUInt8 :: s)
    simp only [readIn, Expansion.expand, if_pos hm, Expansion.replace_eq_ok_iff.mpr hx, hs]

end Line

namespace Draft

-- Whatever the bytes of the comment are, they change nothing about a line that is accepted.
theorem addLine_append_comment (asm : Assembler) (n : Nat) (text s : Text) (d d' : Draft)
    (h : addLine asm n text d = .ok d') :
    addLine asm n (text ++ ';'.toUInt8 :: s) d = .ok d' := by
  rw [addLine_eq] at h ⊢
  split at h
  case h_1 line hr => rwa [Line.readIn_append_comment hr s]
  case h_2 => contradiction

-- Quotes in an expression and in a comment that is there already, and marks in the new one.
theorem addLine_append_comment_of_quotes :
    let text := Text.ofString "x: MOV A, $(ord(\"'\") + LINENO) ; it's"
    let s := Text.ofString "\"$(1)) ' $(("
    ∃ d', addLine {} 3 text {} = .ok d' ∧ addLine {} 3 (text ++ ';'.toUInt8 :: s) {} = .ok d' ∧
      d'.code = #[6, 0, 42] := by
  intro text s
  have hc : (addLine {} 3 text {}).toOption.map Draft.code = some #[6, 0, 42] := by
    decide +kernel
  cases h : addLine {} 3 text {}
  case error => simp [h, Except.toOption] at hc
  case ok d' =>
    simp only [h, Except.toOption, Option.map_some, Option.some.injEq] at hc
    exact ⟨d', rfl, addLine_append_comment {} 3 text s {} d' h, hc⟩

-- The line has to be accepted as it is: a comment can close the quote of an empty string.
example : Line.read (Text.ofString "DB \"\"") = .error .malformed ∧
    Line.read (Text.ofString "DB \"\";\"") =
      .ok ⟨none, some ⟨Text.ofString "DB", [Text.ofString "\"\";\""]⟩⟩ :=
  ⟨rfl, rfl⟩

end Draft

end ByteAsm
