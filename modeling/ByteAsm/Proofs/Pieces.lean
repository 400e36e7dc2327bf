import ByteAsm.Expansion
import ByteAsm.Proofs.Grammar

namespace ByteAsm

theorem Numeral.isDigit_of_mem_natural {n : Nat} {b : UInt8} (h : b ∈ natural n) :
    Byte.isDigit b := by
  obtain ⟨c, hc, he⟩ := List.mem_map.mp h
  have hd := Nat.isDigit_of_mem_toDigits (by decide) (by decide) hc
  simp only [Char.isDigit, Bool.and_eq_true, decide_eq_true_eq] at hd
  have hv : b.toNat = c.val.toNat % 256 := by
    rw [←he]
    rfl
  have h₁ : 48 ≤ c.val.toNat := hd.left
  have h₂ : c.val.toNat ≤ 57 := hd.right
  rw [Byte.isDigit_iff]
  omega

namespace Expansion

open Line (Written Tail Blanks LabelWritten OperandsWritten CommandWritten)

variable {value? : Text → Option Int} {t e p : Text}

-- The bytes of a body that are no brackets.
def isInner (c : UInt8) : Bool :=
  !(c == '$'.toUInt8 || c == '('.toUInt8 || c == ')'.toUInt8)

-- Brackets are closed, and none stands in another one.
inductive Nested : Text → Prop
  | nil : Nested []
  | byte {c : UInt8} {t : Text} : isInner c → Nested t → Nested (c :: t)
  | brackets {inside t : Text} : (∀ c ∈ inside, isInner c) → Nested t →
    Nested ('('.toUInt8 :: (inside ++ ')'.toUInt8 :: t))

-- What may still come in a body, where `inner` tells whether a bracket is open.
def Completes : (inner : Bool) → Text → Prop
  | false, t => Nested t
  | true, t => ∃ inside rest, t = inside ++ ')'.toUInt8 :: rest ∧ (∀ c ∈ inside, isInner c) ∧
    Nested rest

theorem Completes.byte {inner : Bool} {c : UInt8} (hc : isInner c) (h : Completes inner t) :
    Completes inner (c :: t) := by
  cases inner
  case false => exact Nested.byte hc h
  case true =>
    obtain ⟨inside, rest, ht, hi, hr⟩ := h
    exact ⟨c :: inside, rest, ht ▸ rfl, List.forall_mem_cons.mpr ⟨hc, hi⟩, hr⟩

theorem Completes.opened (h : Completes true t) : Completes false ('('.toUInt8 :: t) := by
  obtain ⟨inside, rest, ht, hi, hr⟩ := h
  exact ht ▸ Nested.brackets hi hr

theorem Completes.closed (h : Completes false t) : Completes true (')'.toUInt8 :: t) :=
  ⟨[], t, rfl, List.forall_mem_nil _, h⟩

-- A byte breaks a body off, ends it, or goes into it.
theorem body?_step (inner : Bool) (c : UInt8) :
    (∀ done t, body? inner done (c :: t) = none) ∨
    (c = ')'.toUInt8 ∧ inner = false ∧ ∀ done t, body? inner done (c :: t) = some done.reverse) ∨
    ∃ inner', (∀ t, Completes inner' t → Completes inner (c :: t)) ∧
      ∀ done t, body? inner done (c :: t) = body? inner' (c :: done) t := by
  by_cases hd : c = '$'.toUInt8
  case pos => exact .inl fun done t => by simp [body?, hd]
  case neg =>
    by_cases ho : c = '('.toUInt8
    case pos =>
      subst ho
      cases inner
      case false => exact .inr (.inr ⟨true, fun _ => Completes.opened, fun _ _ => rfl⟩)
      case true => exact .inl fun _ _ => rfl
    case neg =>
      by_cases hc : c = ')'.toUInt8
      case neg =>
        have hi : isInner c := by simp [isInner, hd, ho, hc]
        refine .inr (.inr ⟨inner, fun _ => Completes.byte hi, fun _ _ => ?_⟩)
        simp [body?, hd, ho, hc]
      case pos =>
        subst hc
        cases inner
        case false => exact .inr (.inl ⟨rfl, rfl, fun _ _ => rfl⟩)
        case true => exact .inr (.inr ⟨false, fun _ => Completes.closed, fun _ _ => rfl⟩)

theorem body?_eq_some {inner : Bool} {done body : Text} (h : body? inner done t = some body) :
    ∃ x rest, t = x ++ ')'.toUInt8 :: rest ∧ body = done.reverse ++ x ∧ Completes inner x := by
  induction t generalizing inner done
  case nil => contradiction
  case cons c t hi =>
    obtain hn | ⟨hc, hinner, he⟩ | ⟨inner', hx, he⟩ := body?_step inner c
    case inl => simp [hn] at h
    case inr.inl =>
      rw [he] at h
      cases h
      subst hinner
      exact ⟨[], t, by rw [hc, List.nil_append], (List.append_nil _).symm, Nested.nil⟩
    case inr.inr =>
      rw [he] at h
      obtain ⟨x, rest, ht, hb, hn⟩ := hi h
      exact ⟨c :: x, rest, by rw [ht, List.cons_append], by simpa using hb, hx x hn⟩

-- A body that is closed does not depend on what follows.
theorem body?_append {inner : Bool} {done body : Text} (h : body? inner done t = some body)
    (s : Text) : body? inner done (t ++ s) = some body := by
  induction t generalizing inner done
  case nil => contradiction
  case cons c t hi =>
    rw [List.cons_append]
    obtain hn | ⟨_, _, he⟩ | ⟨inner', _, he⟩ := body?_step inner c
    case inl => simp [hn] at h
    case inr.inl => rwa [he] at h ⊢
    case inr.inr =>
      rw [he] at h ⊢
      exact hi h

theorem body?_inner {inside : Text} (h : ∀ c ∈ inside, isInner c) (inner : Bool) (done t : Text) :
    body? inner done (inside ++ t) = body? inner (inside.reverse ++ done) t := by
  induction inside generalizing done
  case nil => rfl
  case cons c inside hi =>
    obtain ⟨hc, h⟩ := List.forall_mem_cons.mp h
    simp only [isInner, Bool.not_eq_true', Bool.or_eq_false_iff] at hc
    simp only [List.cons_append, body?, hc, Bool.false_eq_true, if_false, hi h, List.reverse_cons,
      List.append_assoc]
    rfl

theorem body?_closing (done rest : Text) :
    body? false done (')'.toUInt8 :: rest) = some done.reverse :=
  rfl

theorem Nested.body?_eq {body : Text} (h : Nested body) (done rest : Text) :
    body? false done (body ++ ')'.toUInt8 :: rest) = some (done.reverse ++ body) := by
  induction h generalizing done
  case nil => rw [List.nil_append, body?_closing, List.append_nil]
  case byte c t hc _ hi =>
    have hc : ∀ b ∈ [c], isInner b := by simpa using hc
    refine (body?_inner hc false done _).trans ?_
    simp [hi]
  case brackets inside t hinside _ hi =>
    rw [List.cons_append, List.append_assoc, List.cons_append, body?, if_neg (by decide),
      if_pos (by decide), if_neg (by decide), body?_inner hinside, body?, if_neg (by decide),
      if_neg (by decide), if_pos (by decide), if_pos rfl, hi]
    simp

theorem expression?_eq_some_iff {body : Text} : expression? t = some body ↔
    Nested body ∧ ∃ rest, t = '('.toUInt8 :: (body ++ ')'.toUInt8 :: rest) := by
  constructor
  case mp =>
    intro h
    cases t
    case nil => contradiction
    case cons c t =>
      simp only [expression?] at h
      split at h <;> try contradiction
      case isTrue hc =>
        obtain ⟨x, rest, ht, hb, hn⟩ := body?_eq_some h
        cases hb
        exact ⟨hn, rest, by rw [eq_of_beq hc, ht]; rfl⟩
  case mpr =>
    rintro ⟨h, rest, ht⟩
    subst ht
    exact h.body?_eq [] rest

theorem expression?_append {body : Text} (h : expression? t = some body) (s : Text) :
    expression? (t ++ s) = some body := by
  cases t
  case nil => contradiction
  case cons c t =>
    simp only [List.cons_append, expression?] at h ⊢
    split at h <;> try contradiction
    case isTrue hc => rw [if_pos hc, body?_append h]

-- The byte starts no comment, no literal and no expression if `t` follows it.
structure Lone (c : UInt8) (t : Text) : Prop where
  comment    : c ≠ ';'.toUInt8
  literal    : Line.isQuote c → Line.quoted? c t = none
  expression : c = '$'.toUInt8 → expression? t = none

inductive Expands (value? : Text → Option Int) : Text → Text → Prop
  | nil : Expands value? [] []
  | comment {t : Text} : Expands value? (';'.toUInt8 :: t) (';'.toUInt8 :: t)
  | byte {c : UInt8} {t e : Text} :
    Lone c t → (Expands value? t e) → Expands value? (c :: t) (c :: e)
  | literal {q c : UInt8} {body t e : Text} : Line.isQuote q → (∀ c ∈ body, c ≠ q) →
    (Expands value? t e) →
    Expands value? (q :: c :: (body ++ q :: t)) (q :: c :: (body ++ q :: e))
  | value {body t e : Text} {n : Nat} :
    expression? ('('.toUInt8 :: (body ++ ')'.toUInt8 :: t)) = some body →
    evaluate value? body = .ok n → (Expands value? t e) →
    Expands value? ('$'.toUInt8 :: '('.toUInt8 :: (body ++ ')'.toUInt8 :: t))
      (Numeral.natural n ++ e)

theorem replace_go_skip (n : Nat) (done t : Text) :
    replace.go value? n done t = replace.go value? 0 done (t.drop n) := by
  induction n generalizing t
  case zero => rfl
  case succ n hi =>
    cases t
    case nil => rfl
    case cons c t => exact hi t

theorem replace_go_byte {c : UInt8} (h : Lone c t) (done : Text) :
    replace.go value? 0 done (c :: t) = replace.go value? 0 (c :: done) t := by
  have hs : (c == ';'.toUInt8) = false := by simpa using h.comment
  rw [replace.go, hs, if_neg Bool.false_ne_true]
  split
  case isTrue hq => simp only [h.literal hq]
  case isFalse =>
    split
    case isTrue hd => simp only [h.expression (eq_of_beq hd)]
    case isFalse => rfl

theorem replace_go_literal {q c : UInt8} {body : Text} (hq : Line.isQuote q)
    (hb : ∀ c ∈ body, c ≠ q) (done t : Text) :
    replace.go value? 0 done (q :: c :: (body ++ q :: t)) =
      replace.go value? 0 ((q :: c :: (body ++ [q])).reverse ++ done) t := by
  have hs : q ≠ ';'.toUInt8 := Byte.ne_of_holds hq (by decide)
  have hl := Line.quoted?_append (c := c) hb t
  rw [replace.go, if_neg (by simpa using hs), if_pos hq, hl]
  dsimp only
  rw [replace_go_skip]
  simp

theorem replace_go_value {body rest : Text} {n : Nat}
    (hx : expression? ('('.toUInt8 :: (body ++ ')'.toUInt8 :: rest)) = some body)
    (hn : evaluate value? body = .ok n) (done : Text) :
    replace.go value? 0 done ('$'.toUInt8 :: '('.toUInt8 :: (body ++ ')'.toUInt8 :: rest)) =
      replace.go value? 0 ((Numeral.natural n).reverse ++ done) rest := by
  have hd : ('('.toUInt8 :: (body ++ ')'.toUInt8 :: rest)).drop (body.length + 2) = rest := by
    rw [List.drop_succ_cons, ←List.drop_drop]
    simp
  rw [replace.go, if_neg (by decide), if_neg (by decide), if_pos (by decide), hx]
  dsimp only
  rw [hn]
  dsimp only
  rw [replace_go_skip, hd]

theorem replace_go_error {body rest : Text} {e : Error}
    (hx : expression? ('('.toUInt8 :: (body ++ ')'.toUInt8 :: rest)) = some body)
    (he : evaluate value? body = .error e) (done : Text) :
    replace.go value? 0 done ('$'.toUInt8 :: '('.toUInt8 :: (body ++ ')'.toUInt8 :: rest)) =
      .error e := by
  rw [replace.go, if_neg (by decide), if_neg (by decide), if_pos (by decide), hx]
  simp only [he]

theorem Expands.replace_go_eq (h : Expands value? t e) (done : Text) :
    replace.go value? 0 done t = .ok (done.reverse ++ e) := by
  induction h generalizing done
  case nil => simp [replace.go]
  case comment => rfl
  case byte hl _ hi => rw [replace_go_byte hl, hi, List.reverse_cons, List.append_assoc]; rfl
  case literal hq hb _ hi =>
    rw [replace_go_literal hq hb, hi]
    simp
  case value hx hn _ hi =>
    rw [replace_go_value hx hn, hi]
    simp

-- The piece at the front of a text.
inductive Piece : UInt8 → Text → Prop
  | comment {t : Text} : Piece ';'.toUInt8 t
  | byte {c : UInt8} {t : Text} : Lone c t → Piece c t
  | literal {q c : UInt8} {body t : Text} : Line.isQuote q → (∀ c ∈ body, c ≠ q) →
    Piece q (c :: (body ++ q :: t))
  | expression {body t : Text} :
    expression? ('('.toUInt8 :: (body ++ ')'.toUInt8 :: t)) = some body →
    Piece '$'.toUInt8 ('('.toUInt8 :: (body ++ ')'.toUInt8 :: t))

theorem piece (c : UInt8) (t : Text) : Piece c t := by
  by_cases hs : c = ';'.toUInt8
  case pos => exact hs ▸ .comment
  case neg =>
    cases hq : Line.isQuote c
    case true =>
      have hd : c ≠ '$'.toUInt8 := Byte.ne_of_holds hq (by decide)
      cases hl : Line.quoted? c t
      case none => exact .byte ⟨hs, fun _ => hl, fun h => absurd h hd⟩
      case some found =>
        obtain ⟨ht, c', body, he, hb⟩ := Line.quoted?_eq_some hl
        rw [ht, he, List.cons_append, List.append_assoc, List.singleton_append]
        exact .literal hq hb
    case false =>
      by_cases hd : c = '$'.toUInt8
      case neg => exact .byte ⟨hs, by simp [hq], fun h => absurd h hd⟩
      case pos =>
        cases hx : expression? t
        case none => exact .byte ⟨hs, by simp [hq], fun _ => hx⟩
        case some body =>
          obtain ⟨_, rest, ht⟩ := expression?_eq_some_iff.mp hx
          subst hd ht
          exact .expression hx

-- The loop takes one piece after the other, and each of them makes the text shorter.
theorem expands_of_replace_go (t : Text) {done r : Text} (h : replace.go value? 0 done t = .ok r) :
    ∃ e, Expands value? t e ∧ r = done.reverse ++ e := by
  cases t
  case nil =>
    cases h
    exact ⟨[], .nil, (List.append_nil _).symm⟩
  case cons c t =>
    cases piece c t
    case comment =>
      cases h
      exact ⟨_, .comment, rfl⟩
    case byte hl =>
      rw [replace_go_byte hl] at h
      obtain ⟨e, he, hr⟩ := expands_of_replace_go t h
      exact ⟨c :: e, .byte hl he, by simpa using hr⟩
    case literal c' body t hq hb =>
      rw [replace_go_literal hq hb] at h
      obtain ⟨e, he, hr⟩ := expands_of_replace_go t h
      exact ⟨_, .literal hq hb he, by simpa using hr⟩
    case expression body t hx =>
      cases hn : evaluate value? body
      case error e =>
        rw [replace_go_error hx hn] at h
        contradiction
      case ok n =>
        rw [replace_go_value hx hn] at h
        obtain ⟨e, he, hr⟩ := expands_of_replace_go t h
        exact ⟨_, .value hx hn he, by simpa using hr⟩
termination_by t.length

theorem replace_eq_ok_iff : replace value? t = .ok e ↔ Expands value? t e := by
  constructor
  case mp =>
    intro h
    obtain ⟨e', he, hr⟩ := expands_of_replace_go t h
    rwa [hr]
  case mpr => exact fun h => h.replace_go_eq []

-- Values add nothing but digits.
theorem Expands.not_mem {b : UInt8} (h : Expands value? t e) (hb : ¬Byte.isDigit b) (ht : b ∉ t) :
    b ∉ e := by
  induction h
  case nil => exact ht
  case comment => exact ht
  case byte hi => simp_all
  case literal hi => simp_all
  case value hi =>
    refine List.not_mem_append (fun hm => hb (Numeral.isDigit_of_mem_natural hm)) (hi ?_)
    simp_all

-- The bytes that mean nothing to expansion.
def isPlain (c : UInt8) : Bool :=
  !(c == ';'.toUInt8 || Line.isQuote c || c == '$'.toUInt8)

-- Four bytes mean something, and the classes that lines are written with leave them out.
theorem isPlain_of_holds {p : UInt8 → Bool} {c : UInt8} (h : p c)
    (hp : [';', '"', '\'', '$'].any (fun x => p x.toUInt8) = false) : isPlain c := by
  have hne {x : Char} (hx : x ∈ [';', '"', '\'', '$']) : c ≠ x.toUInt8 :=
    Byte.ne_of_holds h (by simpa using List.any_eq_false.mp hp x hx)
  simp [isPlain, Line.isQuote, hne (x := ';'), hne (x := '"'), hne (x := '\''), hne (x := '$')]

theorem lone_of_isPlain {c : UInt8} (h : isPlain c) (t : Text) : Lone c t := by
  simp only [isPlain, Bool.not_eq_true', Bool.or_eq_false_iff, beq_eq_false_iff_ne] at h
  obtain ⟨⟨hs, hq⟩, hd⟩ := h
  exact ⟨hs, by simp [hq], fun he => absurd he hd⟩

-- Each quote outside of the comment is closed, and no dollar sign stands outside of quotes and the
-- comment.
inductive Settled : Text → Prop
  | nil : Settled []
  | comment {t : Text} : Settled (';'.toUInt8 :: t)
  | plain {c : UInt8} {t : Text} : isPlain c → Settled t → Settled (c :: t)
  | literal {q c : UInt8} {body t : Text} : Line.isQuote q → (∀ c ∈ body, c ≠ q) → Settled t →
    Settled (q :: c :: (body ++ q :: t))

theorem Settled.expands (h : Settled t) (value? : Text → Option Int) : Expands value? t t := by
  induction h
  case nil => exact .nil
  case comment => exact .comment
  case plain hc _ hi => exact .byte (lone_of_isPlain hc _) hi
  case literal hq hb _ hi => exact .literal hq hb hi

theorem settled_plain (h : ∀ c ∈ p, isPlain c) (ht : Settled t) : Settled (p ++ t) := by
  induction p
  case nil => exact ht
  case cons c p hi =>
    obtain ⟨hc, h⟩ := List.forall_mem_cons.mp h
    exact .plain hc (hi h)

theorem settled_word (h : ∀ c ∈ p, Byte.isWord c) (ht : Settled t) : Settled (p ++ t) :=
  settled_plain (fun c hc => isPlain_of_holds (h c hc) (by decide)) ht

theorem settled_blanks (h : Blanks p) (ht : Settled t) : Settled (p ++ t) :=
  settled_plain (fun c hc => isPlain_of_holds (h c hc) (by decide)) ht

theorem settled_operand (h : Operand.Written p) (ht : Settled t) : Settled (p ++ t) := by
  have hc : Settled (']'.toUInt8 :: t) := .plain (by decide) ht
  cases h
  case bracketed w _ hw =>
    have hw := settled_word hw hc
    exact .plain (by decide) (by simpa using hw)
  case displaced w ds sign _ hw hs _ hds =>
    have hds := settled_word (fun c hc => Byte.isWord_of_isDigit (hds c hc)) hc
    have hs : isPlain sign := by cases hs <;> subst sign <;> decide
    have hw := settled_word hw (.plain hs hds)
    exact .plain (by decide) (by simpa using hw)
  case quoted hq hb => simpa using Settled.literal hq hb ht
  case word c w hc hw =>
    have hc : isPlain c := by
      cases hc
      case inl hl => exact isPlain_of_holds hl (by decide)
      case inr hd => exact isPlain_of_holds hd (by decide)
    exact .plain hc (settled_word hw ht)

theorem settled_operands {ops : List Text} (h : OperandsWritten ops p) (ht : Settled t) :
    Settled (p ++ t) := by
  cases h
  case none => exact ht
  case one hb _ hw =>
    rw [List.append_assoc]
    exact settled_blanks hb (settled_operand hw ht)
  case two hb _ hw₁ hb₁ hb₂ hw₂ =>
    have h₂ := settled_blanks hb₂ (settled_operand hw₂ ht)
    have h₁ := settled_blanks hb₁ (.plain (by decide : isPlain ','.toUInt8) h₂)
    have h := settled_blanks hb (settled_operand hw₁ h₁)
    simpa using h

theorem settled_command {command : Option Command} (h : CommandWritten command p)
    (ht : Settled t) : Settled (p ++ t) := by
  cases h
  case none => exact ht
  case some hm ho =>
    rw [List.append_assoc]
    refine settled_word (fun c hc => ?_) (settled_operands ho ht)
    exact Byte.isWord_of_isLetter (hm.right.right c hc)

theorem settled_label {label : Option Text} (h : LabelWritten label p) (ht : Settled t) :
    Settled (p ++ t) := by
  cases h
  case none => exact ht
  case some name hn =>
    have hc : Settled (':'.toUInt8 :: t) := .plain (by decide) ht
    cases name
    case nil => contradiction
    case cons c name =>
      simp only [Word.isLabel, Bool.and_eq_true, List.all_eq_true] at hn
      have hw := settled_word hn.right hc
      exact .plain (isPlain_of_holds hn.left (by decide)) (by simpa using hw)

theorem settled_tail (h : Tail t) : Settled t := by
  obtain ⟨cs, rest, hcs, ht, hr⟩ := h
  rw [ht]
  refine settled_plain (fun b hb => ?_) ?_
  case refine_1 =>
    obtain ⟨c, hc, hb⟩ := List.mem_flatMap.mp hb
    exact isPlain_of_holds (Line.isSpaceByte_of_mem_encode (hcs c hc) b hb) (by decide)
  case refine_2 =>
    cases hr
    case inl hr => exact hr ▸ .nil
    case inr hr =>
      cases rest
      case nil => contradiction
      case cons c rest =>
        cases hr
        exact .comment

theorem settled_of_written {line : Line} (h : Written t line) : Settled t := by
  cases h
  case mk hb₁ hl hb₂ hc ht =>
    have hc := settled_blanks hb₂ (settled_command hc (settled_tail ht))
    exact settled_blanks hb₁ (settled_label hl hc)

-- A line that can be read stays as it is.
theorem expand_of_read {line : Line} (h : Line.read t = .ok line) (value? : Text → Option Int) :
    expand value? t = .ok t := by
  unfold expand
  split
  case isTrue =>
    exact replace_eq_ok_iff.mpr ((settled_of_written (Line.written_of_read h)).expands value?)
  case isFalse => rfl

end Expansion

end ByteAsm
