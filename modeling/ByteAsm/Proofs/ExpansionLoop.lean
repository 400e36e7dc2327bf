import Mathlib.Data.List.Forall2
import ByteAsm.Draft
import ByteAsm.Proofs.Pieces
import ByteAsm.Proofs.SideBySide

namespace ByteAsm.Expansion

variable {value? : Text → Option Int} {eval : Text → Except Error Nat} {line t : Text} {pos : Nat}

-- What a round passes: text that is copied, or an expression.
inductive Fragment
  | copied (t : Text)
  | expression (body : Text)
deriving DecidableEq

def Fragment.text : Fragment → Text
  | copied t => t
  | expression body => '$'.toUInt8 :: '('.toUInt8 :: (body ++ [')'.toUInt8])

-- What is written for a fragment. Only expressions are evaluated.
def Fragment.output (eval : Text → Except Error Nat) : Fragment → Except Error Text
  | copied t => .ok t
  | expression body => (eval body).map Numeral.natural

-- The next position, and the fragment that ends there.
def round (line : Text) (pos : Nat) : Nat × Fragment :=
  match line.drop pos with
  | [] => (line.length, .copied [])
  | c :: rest =>
    if c == ';'.toUInt8 then (line.length, .copied (c :: rest))
    else if Line.isQuote c then
      match Line.operand? (c :: rest) with
      | some (literal, _) => (pos + literal.length, .copied literal)
      | none => (pos + 1, .copied [c])
    else if c == '$'.toUInt8 then
      match expression? rest with
      | some body => (pos + body.length + 3, .expression body)
      | none => (pos + 1, .copied [c])
    else (pos + 1, .copied [c])

theorem round_comment (h : line.drop pos = ';'.toUInt8 :: t) :
    round line pos = (line.length, .copied (';'.toUInt8 :: t)) := by
  rw [round, h]
  rfl

theorem operand?_quote {c : UInt8} (hq : Line.isQuote c) :
    Line.operand? (c :: t) = (Line.quoted? c t).map fun (op, rest) => (c :: op, rest) := by
  have hb : c ≠ '['.toUInt8 := Byte.ne_of_holds hq (by decide)
  rw [Line.operand?, if_neg (by simpa using hb), if_pos hq]

theorem round_byte {c : UInt8} (h : line.drop pos = c :: t) (hl : Lone c t) :
    round line pos = (pos + 1, .copied [c]) := by
  have hs : ¬(c == ';'.toUInt8) := by simpa using hl.comment
  rw [round, h]
  dsimp only
  rw [if_neg hs]
  split
  case isTrue hq => rw [operand?_quote hq, hl.literal hq]; rfl
  case isFalse =>
    split
    case isTrue hd => rw [hl.expression (eq_of_beq hd)]
    case isFalse => rfl

theorem round_literal {q c : UInt8} {body : Text} (hq : Line.isQuote q) (hb : ∀ c ∈ body, c ≠ q)
    (h : line.drop pos = q :: c :: (body ++ q :: t)) :
    round line pos =
      (pos + (q :: c :: (body ++ [q])).length, .copied (q :: c :: (body ++ [q]))) := by
  have hs : q ≠ ';'.toUInt8 := Byte.ne_of_holds hq (by decide)
  rw [round, h]
  dsimp only
  rw [if_neg (by simpa using hs), if_pos hq, operand?_quote hq, Line.quoted?_append hb]
  rfl

theorem round_expression {body : Text}
    (hx : expression? ('('.toUInt8 :: (body ++ ')'.toUInt8 :: t)) = some body)
    (h : line.drop pos = '$'.toUInt8 :: '('.toUInt8 :: (body ++ ')'.toUInt8 :: t)) :
    round line pos = (pos + body.length + 3, .expression body) := by
  rw [round, h]
  dsimp only
  rw [if_neg (by decide), if_neg (by decide), if_pos (by decide), hx]

-- The loop over a text goes on behind the fragment once it is written.
def Fragment.Passes (f : Fragment) (rest : Text) : Prop :=
  ∀ value? done, replace.go value? 0 done (f.text ++ rest) =
    match f.output (evaluate value?) with
    | .ok t => replace.go value? 0 (t.reverse ++ done) rest
    | .error e => .error e

theorem drop_of_drop_eq {front : Text} (h : line.drop pos = front ++ t) :
    line.drop (pos + front.length) = t := by
  rw [←List.drop_drop, h, List.drop_left]

-- All that a round can do, whatever stands at the position.
theorem exists_round (h : pos < line.length) :
    ∃ f rest, line.drop pos = f.text ++ rest ∧ f.text ≠ [] ∧
      round line pos = (pos + f.text.length, f) ∧ f.Passes rest ∧
      ∀ body, f = .expression body → Nested body := by
  cases hd : line.drop pos
  case nil => exact absurd (List.drop_eq_nil_iff.mp hd) (Nat.not_le_of_lt h)
  case cons c t =>
    cases piece c t
    case comment =>
      have hl : line.length = pos + (';'.toUInt8 :: t).length := by
        rw [←hd, List.length_drop]
        omega
      refine ⟨.copied (';'.toUInt8 :: t), [], by simp [Fragment.text], List.cons_ne_nil _ _, ?_,
        fun value? done => ?_, by simp⟩
      case refine_1 => rw [round_comment hd, hl]; rfl
      case refine_2 => simp [Fragment.text, Fragment.output, replace.go]
    case byte hl =>
      exact ⟨.copied [c], t, rfl, List.cons_ne_nil _ _, round_byte hd hl,
        fun value? done => replace_go_byte hl done, by simp⟩
    case literal c' body t hq hb =>
      refine ⟨.copied (c :: c' :: (body ++ [c])), t, by simp [Fragment.text], List.cons_ne_nil _ _,
        round_literal hq hb hd, fun value? done => ?_, by simp⟩
      simpa [Fragment.text, Fragment.output] using replace_go_literal (c := c') hq hb done t
    case expression body t hx =>
      have hn := (expression?_eq_some_iff.mp hx).left
      refine ⟨.expression body, t, by simp [Fragment.text], List.cons_ne_nil _ _, ?_,
        fun value? done => ?_, fun _ he => Fragment.expression.inj he ▸ hn⟩
      case refine_1 => rw [round_expression hx hd]; simp [Fragment.text]; rfl
      case refine_2 =>
        cases hn : evaluate value? body
        case error e =>
          simpa [Fragment.text, Fragment.output, hn, Except.map] using replace_go_error hx hn done
        case ok n =>
          simpa [Fragment.text, Fragment.output, hn, Except.map] using replace_go_value hx hn done

-- A round from `pos` to `next` moves on within the line, and `f` is what it passes.
structure Advances (line : Text) (pos next : Nat) (f : Fragment) : Prop where
  forward : pos < next
  inside  : next ≤ line.length
  passed  : line.drop pos = f.text ++ line.drop next
  nested  : ∀ body, f = .expression body → Nested body

theorem advances_round (h : pos < line.length) :
    Advances line pos (round line pos).1 (round line pos).2 := by
  obtain ⟨f, rest, hd, hf, hr, _, hn⟩ := exists_round h
  have hp := List.length_pos_iff.mpr hf
  have hl := congrArg List.length hd
  rw [List.length_drop, List.length_append] at hl
  rw [hr]
  exact ⟨Nat.lt_add_of_pos_right hp, by dsimp only; omega, by rw [drop_of_drop_eq hd, hd], hn⟩

-- Round after round until the end of the line, with the text written so far.
def loop (eval : Text → Except Error Nat) (line : Text) (pos : Nat) (out : Text) :
    Except Error Text :=
  if _h : pos < line.length then
    match (round line pos).2.output eval with
    | .ok t => loop eval line (round line pos).1 (out ++ t)
    | .error e => .error e
  else .ok out
termination_by line.length - pos
decreasing_by exact Nat.sub_lt_sub_left ‹_› (advances_round ‹_›).forward

-- The fragments of the rounds from a position on.
def fragments (line : Text) (pos : Nat) : List Fragment :=
  if _h : pos < line.length then (round line pos).2 :: fragments line (round line pos).1 else []
termination_by line.length - pos
decreasing_by exact Nat.sub_lt_sub_left ‹_› (advances_round ‹_›).forward

theorem fragments_of_lt (h : pos < line.length) :
    fragments line pos = (round line pos).2 :: fragments line (round line pos).1 := by
  rw [fragments, dif_pos h]

theorem fragments_of_le (h : line.length ≤ pos) : fragments line pos = [] := by
  rw [fragments, dif_neg (Nat.not_lt_of_le h)]

theorem loop_eq_replace_go (value? : Text → Option Int) (line : Text) (pos : Nat) (out : Text) :
    loop (evaluate value?) line pos out = replace.go value? 0 out.reverse (line.drop pos) := by
  fun_induction loop (evaluate value?) line pos out
  case case3 pos out h => simp [List.drop_eq_nil_iff.mpr (Nat.le_of_not_lt h), replace.go]
  case case1 pos out h t ht hi =>
    obtain ⟨f, rest, hd, _, hr, hp, _⟩ := exists_round h
    rw [hr] at ht hi ⊢
    rw [hi, hd, hp, ht, drop_of_drop_eq hd, List.reverse_append]
  case case2 pos out h e he =>
    obtain ⟨f, rest, hd, _, hr, hp, _⟩ := exists_round h
    rw [hr] at he
    rw [hd, hp, he]

theorem replace_eq_loop (value? : Text → Option Int) (line : Text) :
    replace value? line = loop (evaluate value?) line 0 [] :=
  (loop_eq_replace_go value? line 0 []).symm

-- The fragments do not depend on values. They are written one after the other.
theorem loop_eq_mapM (eval : Text → Except Error Nat) (line : Text) (pos : Nat) (out : Text) :
    loop eval line pos out =
      ((fragments line pos).mapM (Fragment.output eval)).map (out ++ ·.flatten) := by
  fun_induction loop eval line pos out
  case case3 pos out h =>
    rw [fragments_of_le (Nat.le_of_not_lt h)]
    exact congrArg Except.ok (List.append_nil out).symm
  case case1 pos out h t ht hi =>
    rw [hi, fragments_of_lt h, List.mapM_cons, ht]
    cases (fragments line (round line pos).1).mapM (Fragment.output eval)
    case error => rfl
    case ok outs => exact congrArg Except.ok (by simp)
  case case2 pos out h e he =>
    rw [fragments_of_lt h, List.mapM_cons, he]
    rfl

theorem text_fragments (line : Text) (pos : Nat) :
    (fragments line pos).flatMap Fragment.text = line.drop pos := by
  fun_induction fragments line pos
  case case1 pos h hi => rw [List.flatMap_cons, hi, (advances_round h).passed]
  case case2 pos h => rw [List.drop_eq_nil_iff.mpr (Nat.le_of_not_lt h)]; rfl

theorem length_fragments_le (line : Text) (pos : Nat) :
    (fragments line pos).length ≤ line.length - pos := by
  fun_induction fragments line pos
  case case1 pos h hi =>
    have ha := advances_round h
    have hf := ha.forward
    have hn := ha.inside
    rw [List.length_cons]
    omega
  case case2 => exact Nat.zero_le _

theorem nested_of_mem_fragments {body : Text} (h : .expression body ∈ fragments line pos) :
    Nested body := by
  fun_induction fragments line pos
  case case1 pos hl hi =>
    cases List.mem_cons.mp h
    case inr h => exact hi h
    case inl h => exact (advances_round hl).nested body h.symm
  case case2 => contradiction

theorem fragment_of_expression {body rest : Text} (hb : Nested body)
    (h : line.drop pos = (Fragment.expression body).text ++ rest) :
    (round line pos).2 = .expression body := by
  have hd : line.drop pos = '$'.toUInt8 :: '('.toUInt8 :: (body ++ ')'.toUInt8 :: rest) := by
    simpa [Fragment.text] using h
  rw [round_expression (expression?_eq_some_iff.mpr ⟨hb, rest, rfl⟩) hd]

theorem hasMark_iff_infix : hasMark line ↔ Text.ofString "$(" <:+: line := by
  refine ⟨fun h => ?_, fun h => hasMark_of_infix h (by decide)⟩
  induction line
  case nil => contradiction
  case cons c line hi =>
    simp only [hasMark, Bool.or_eq_true, Bool.and_eq_true, beq_iff_eq] at h
    cases h
    case inr h => exact List.infix_cons (hi h)
    case inl h =>
      obtain ⟨hc, hh⟩ := h
      obtain ⟨rest, hr⟩ := List.head?_eq_some_iff.mp hh
      exact ⟨[], rest, by rw [hc, hr]; rfl⟩

theorem hasMark_of_mem_fragments {body : Text} (h : .expression body ∈ fragments line pos) :
    hasMark line := by
  obtain ⟨before, after, he⟩ := List.append_of_mem h
  have ht := text_fragments line pos
  rw [he, List.flatMap_append, List.flatMap_cons, ←List.append_assoc] at ht
  have hi : (Fragment.expression body).text <:+: line :=
    List.IsInfix.trans ⟨_, _, ht⟩ (List.drop_suffix pos line).isInfix
  exact hasMark_of_infix hi rfl

-- Nothing is evaluated if all fragments are copied.
theorem mapM_output_of_copied {fs : List Fragment} (h : ∀ body, .expression body ∉ fs) :
    fs.mapM (Fragment.output eval) = .ok (fs.map Fragment.text) := by
  induction fs
  case nil => rfl
  case cons f fs hi =>
    have hi := hi fun body hm => h body (List.mem_cons_of_mem f hm)
    rw [List.mapM_cons, hi]
    cases f
    case copied => rfl
    case expression body => exact absurd List.mem_cons_self (h body)

theorem loop_of_not_hasMark (h : ¬hasMark line) (eval : Text → Except Error Nat) :
    loop eval line 0 [] = .ok line := by
  have hf (body : Text) : .expression body ∉ fragments line 0 := mt hasMark_of_mem_fragments h
  have ht : ((fragments line 0).map Fragment.text).flatten = line :=
    text_fragments line 0
  rw [loop_eq_mapM, mapM_output_of_copied hf]
  exact congrArg Except.ok ht

theorem expand_eq_loop (value? : Text → Option Int) (line : Text) :
    expand value? line = loop (evaluate value?) line 0 [] := by
  unfold expand
  split
  case isTrue => exact replace_eq_loop value? line
  case isFalse h => exact (loop_of_not_hasMark h _).symm

-- Copied text stays, and an expression becomes its value in decimal.
inductive Fragment.Becomes (value? : Text → Option Int) : Fragment → Text → Prop
  | copied {t : Text} : Becomes value? (.copied t) t
  | value {body : Text} {v : Int} : value? body = some v → 0 ≤ v →
    v < 0x8000000000000000 → Becomes value? (.expression body) (Numeral.decimal v)

inductive Fragment.Fails (value? : Text → Option Int) : Fragment → Error → Prop
  | noValue {body : Text} : value? body = none →
    Fails value? (.expression body) (.badExpression body)
  | outOfRange {body : Text} {v : Int} : value? body = some v →
    (v < 0 ∨ 0x8000000000000000 ≤ v) → Fails value? (.expression body) .operandRange

theorem decimal_of_nonneg {v : Int} (h : 0 ≤ v) :
    Numeral.decimal v = Numeral.natural v.toNat := by
  have hn : v.natAbs = v.toNat := by omega
  rw [Numeral.decimal, Numeral.signed, if_neg (Int.not_lt_of_ge h), hn]

theorem Fragment.output_expression (value? : Text → Option Int) (body : Text) :
    (Fragment.expression body).output (evaluate value?) =
      match value? body with
      | none => .error (.badExpression body)
      | some v =>
        if 0 ≤ v ∧ v < 0x8000000000000000 then .ok (Numeral.natural v.toNat)
        else .error .operandRange := by
  rw [output, evaluate]
  cases value? body
  case none => rfl
  case some v => dsimp only; split <;> rfl

theorem Fragment.output_eq_ok_iff {f : Fragment} :
    f.output (evaluate value?) = .ok t ↔ f.Becomes value? t := by
  cases f
  case copied =>
    constructor
    case mp =>
      intro h
      cases h
      exact .copied
    case mpr =>
      intro h
      cases h
      rfl
  case expression body =>
    rw [output_expression]
    constructor
    case mp =>
      intro h
      split at h <;> try contradiction
      case h_2 v hv =>
        split at h <;> cases h
        case isTrue hr => exact decimal_of_nonneg hr.left ▸ .value hv hr.left hr.right
    case mpr =>
      intro h
      cases h
      case value v hl hu hv =>
        simp only [hv, if_pos (And.intro hl hu), decimal_of_nonneg hl]

theorem Fragment.output_eq_error_iff {f : Fragment} {e : Error} :
    f.output (evaluate value?) = .error e ↔ f.Fails value? e := by
  cases f
  case copied =>
    constructor
    case mp =>
      intro h
      cases h
    case mpr =>
      intro h
      cases h
  case expression body =>
    rw [output_expression]
    constructor
    case mp =>
      intro h
      split at h
      case h_1 hv =>
        cases h
        exact .noValue hv
      case h_2 v hv =>
        split at h <;> cases h
        case isFalse hr => exact .outOfRange hv (by omega)
    case mpr =>
      intro h
      cases h
      case noValue hv => simp only [hv]
      case outOfRange v hr hv =>
        have hr : ¬(0 ≤ v ∧ v < 0x8000000000000000) := by omega
        simp only [hv, if_neg hr]

section

variable {α β ε : Type} {g : α → Except ε β} {xs : List α}

theorem mapM_eq_ok_iff {ys : List β} :
    xs.mapM g = .ok ys ↔ List.Forall₂ (fun x y => g x = .ok y) xs ys := by
  induction xs generalizing ys
  case nil => simp [pure, Except.pure, eq_comm]
  case cons x xs hi =>
    rw [List.mapM_cons, List.forall₂_cons_left_iff]
    cases hx : g x
    case error => simp [bind, Except.bind]
    case ok y =>
      simp only [←hi]
      cases xs.mapM g <;> simp [bind, Except.bind, pure, Except.pure, eq_comm]

-- The first error is the one that counts.
theorem mapM_eq_error_iff {e : ε} : xs.mapM g = .error e ↔ ∃ before x after,
    xs = before ++ x :: after ∧ (∀ b ∈ before, ∃ y, g b = .ok y) ∧ g x = .error e := by
  induction xs
  case nil => simp [pure, Except.pure]
  case cons x xs hi =>
    rw [List.mapM_cons]
    constructor
    case mp =>
      intro h
      cases hx : g x
      case error e' =>
        rw [hx] at h
        cases h
        exact ⟨[], x, xs, rfl, List.forall_mem_nil _, hx⟩
      case ok y =>
        rw [hx] at h
        have h : xs.mapM g = .error e := by
          cases hm : xs.mapM g <;> simp_all [bind, Except.bind, pure, Except.pure]
        obtain ⟨before, x', after, he, hb, hx'⟩ := hi.mp h
        exact ⟨x :: before, x', after, he ▸ rfl, List.forall_mem_cons.mpr ⟨⟨y, hx⟩, hb⟩, hx'⟩
    case mpr =>
      rintro ⟨before, x', after, he, hb, hx'⟩
      cases before
      case nil =>
        cases he
        rw [hx']
        rfl
      case cons b before =>
        cases he
        obtain ⟨⟨y, hy⟩, hb⟩ := List.forall_mem_cons.mp hb
        rw [hy, hi.mpr ⟨before, x', after, rfl, hb, hx'⟩]
        rfl

end

theorem loop_eq_ok_iff {out : Text} : loop (evaluate value?) line 0 [] = .ok out ↔
    ∃ outs, List.Forall₂ (Fragment.Becomes value?) (fragments line 0) outs ∧
      out = outs.flatten := by
  have hb (outs : List Text) :
      (fragments line 0).mapM (Fragment.output (evaluate value?)) = .ok outs ↔
        List.Forall₂ (Fragment.Becomes value?) (fragments line 0) outs := by
    simp only [mapM_eq_ok_iff, Fragment.output_eq_ok_iff]
  rw [loop_eq_mapM]
  simp only [←hb]
  cases (fragments line 0).mapM (Fragment.output (evaluate value?)) <;>
    simp [Except.map, eq_comm]

theorem loop_eq_error_iff {e : Error} : loop (evaluate value?) line 0 [] = .error e ↔
    ∃ before f after, fragments line 0 = before ++ f :: after ∧
      (∀ b ∈ before, ∃ t, b.Becomes value? t) ∧ f.Fails value? e := by
  have hm : loop (evaluate value?) line 0 [] = .error e ↔
      (fragments line 0).mapM (Fragment.output (evaluate value?)) = .error e := by
    rw [loop_eq_mapM]
    cases (fragments line 0).mapM (Fragment.output (evaluate value?)) <;> simp [Except.map]
  rw [hm, mapM_eq_error_iff]
  simp only [Fragment.output_eq_ok_iff, Fragment.output_eq_error_iff]

-- The shortcut for lines without a mark and the loop over the text are both the loop over rounds.
theorem expand_by_rounds (asm : Assembler) (d : Draft) (n : Nat) (line : Text) :
    let value? := d.value? asm n
    let looped := loop (evaluate value?) line 0 []
    let pieces := fragments line 0
    expand value? line = looped ∧ replace value? line = looped ∧
    (∀ pos < line.length, Advances line pos (round line pos).1 (round line pos).2 ∧
      ∀ body rest, Nested body → line.drop pos = (Fragment.expression body).text ++ rest →
        (round line pos).2 = .expression body) ∧
    pieces.length ≤ line.length ∧
    (¬Text.ofString "$(" <:+: line → expand value? line = .ok line ∧
      (∀ body, .expression body ∉ pieces) ∧ ∀ eval, loop eval line 0 [] = .ok line) ∧
    pieces.flatMap Fragment.text = line ∧
    (∀ body, .expression body ∈ pieces → Nested body) ∧
    (∀ out, looped = .ok out ↔ ∃ outs, List.Forall₂ (Fragment.Becomes value?) pieces outs ∧
      out = outs.flatten) ∧
    ∀ e, looped = .error e ↔ ∃ before f after, pieces = before ++ f :: after ∧
      (∀ b ∈ before, ∃ t, b.Becomes value? t) ∧ f.Fails value? e := by
  intro value? looped pieces
  refine ⟨expand_eq_loop value? line, replace_eq_loop value? line,
    fun pos h => ⟨advances_round h, fun _ _ => fragment_of_expression⟩,
    length_fragments_le line 0, fun h => ?_, text_fragments line 0,
    fun _ => nested_of_mem_fragments, fun _ => loop_eq_ok_iff, fun _ => loop_eq_error_iff⟩
  have hm : ¬hasMark line := mt hasMark_iff_infix.mp h
  exact ⟨if_neg hm, fun _ => mt hasMark_of_mem_fragments hm, loop_of_not_hasMark hm⟩

-- Quotes that are closed protect expressions, other quotes and dollar signs do not. The first of
-- two expressions that have no value is the one that the error names.
theorem expand_by_rounds_of_quotes :
    let value? := ({} : Draft).value? {} 0
    let line := Text.ofString "x$ \"$(1)\" $((2+3)*4)'$(6) ; $(7)"
    let bad := Text.ofString "'$(2) $(none) $(-)"
    let plain := Text.ofString "\"$ (1)"
    let out := Text.ofString "x$ \"$(1)\" 20'6 ; $(7)"
    (expand value? line = .ok out ∧ ∃ outs,
      List.Forall₂ (Fragment.Becomes value?) (fragments line 0) outs ∧ out = outs.flatten) ∧
    (∃ before f after, fragments bad 0 = before ++ f :: after ∧
      (∀ b ∈ before, ∃ t, b.Becomes value? t) ∧
      f.Fails value? (.badExpression (Text.ofString "none"))) ∧
    ∀ eval, loop eval plain 0 [] = .ok plain := by
  intro value? line bad plain out
  have hline : expand value? line = .ok out := by decide +kernel
  have hbad : expand value? bad = .error (.badExpression (Text.ofString "none")) := by
    decide +kernel
  have hplain : ¬Text.ofString "$(" <:+: plain :=
    mt hasMark_iff_infix.mpr (by decide)
  refine ⟨⟨hline, ?_⟩, ?_, ?_⟩
  case refine_1 =>
    obtain ⟨he, _, _, _, _, _, _, hok, _⟩ := expand_by_rounds {} {} 0 line
    exact (hok out).mp (he.symm.trans hline)
  case refine_2 =>
    obtain ⟨he, _, _, _, _, _, _, _, herror⟩ := expand_by_rounds {} {} 0 bad
    exact (herror _).mp (he.symm.trans hbad)
  case refine_3 =>
    obtain ⟨_, _, _, _, hcopied, _⟩ := expand_by_rounds {} {} 0 plain
    exact (hcopied hplain).right.right

end ByteAsm.Expansion
