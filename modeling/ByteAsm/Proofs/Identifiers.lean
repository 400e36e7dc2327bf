import ByteAsm.Expression.Evaluate
import ByteAsm.Proofs.Grammar

namespace ByteAsm

namespace Text

variable {t : Text}

theorem encode_ofUInt8 {b : UInt8} (h : Byte.isAscii b) :
    String.utf8EncodeChar (Char.ofUInt8 b) = [b] := by
  have hn : (Char.ofUInt8 b).toNat = b.toNat := rfl
  have hb : (Char.ofUInt8 b).toNat < 0x80 := hn ▸ Byte.isAscii_iff.mp h
  rw [encode_one hb, hn, UInt8.ofNat_toNat]

theorem ofChars_map_ofUInt8 (h : t.isAscii) : ofChars (t.map Char.ofUInt8) = t := by
  rw [isAscii, List.all_eq_true] at h
  induction t
  case nil => rfl
  case cons b t hi =>
    obtain ⟨hb, ht⟩ := List.forall_mem_cons.mp h
    have hi := hi ht
    simp only [ofChars] at hi
    simp [ofChars, encode_ofUInt8 hb, hi]

end Text

namespace Expression

namespace Token

-- A label that an expression can refer to. Others start with a dot or mean something else.
structure IsName (name : Text) : Prop where
  spelled  : Word.isLabel name
  undotted : name.head? ≠ some '.'.toUInt8
  free     : name ∉ reserved
  plain    : name ∉ keywords.map Prod.fst

theorem startsName_ofUInt8 {b : UInt8} (h : Byte.isLetter b) : startsName (Char.ofUInt8 b) := by
  have hn : (Char.ofUInt8 b).toNat = b.toNat := rfl
  have hl : Text.isLetterChar (Char.ofUInt8 b) := by
    cases Byte.isLetter_iff.mp h
    case inl h =>
      exact List.any_eq_true.mpr ⟨(0x41, 0x5A), List.mem_cons_self, by simpa [hn] using h⟩
    case inr h =>
      have hm : (0x61, 0x7A) ∈ Text.letterRuns := List.mem_cons_of_mem _ List.mem_cons_self
      exact List.any_eq_true.mpr ⟨(0x61, 0x7A), hm, by simpa [hn] using h⟩
  simp [startsName, hl]

theorem continuesName_ofUInt8 {b : UInt8} (h : Byte.isWord b) : continuesName (Char.ofUInt8 b) := by
  simp only [Byte.isWord, Bool.or_eq_true, beq_iff_eq] at h
  obtain (hl | hd) | hu := h
  case inl.inl => simp [continuesName, startsName_ofUInt8 hl]
  case inl.inr =>
    have hd : (Char.ofUInt8 b).isDigit := by
      have h := Byte.isDigit_iff.mp hd
      simp only [Char.isDigit, Bool.and_eq_true, decide_eq_true_eq, ge_iff_le,
        UInt32.le_iff_toNat_le]
      exact h
    simp [continuesName, hd]
  case inr => subst hu; decide

theorem IsName.exists_chars {name : Text} (h : IsName name) :
    ∃ c cs, name = Text.ofChars (c :: cs) ∧ startsName c ∧ ∀ x ∈ cs, continuesName x := by
  have hascii := Word.isAscii_of_isLabel h.spelled
  have hl := h.spelled
  have hd := h.undotted
  cases name
  case nil => contradiction
  case cons b name =>
    simp only [Word.isLabel, Bool.and_eq_true, List.all_eq_true] at hl
    have hdot : b ≠ '.'.toUInt8 := fun he => hd (he ▸ rfl)
    have hb : Byte.isLetter b := by simpa [Word.startsLabel, hdot] using hl.left
    refine ⟨_, _, (Text.ofChars_map_ofUInt8 hascii).symm, startsName_ofUInt8 hb, ?_⟩
    exact List.forall_mem_map.mpr fun c hc => continuesName_ofUInt8 (hl.right c hc)

theorem word?_of_isName {name : Text} (h : IsName name) : word? name = some (.name name) := by
  have hr : ¬reserved.contains name := by simpa using h.free
  have hk : keywords.lookup name = none := by
    refine List.lookup_eq_none_iff.mpr fun entry hm => ?_
    have hne : name ≠ entry.1 := fun he => h.plain (he ▸ List.mem_map_of_mem hm)
    simpa using hne
  rw [word?, if_neg hr, hk]
  rfl

-- The characters that the scanner takes by itself.
def marks : List Char :=
  [' ', '\t', '\x00', '#', '\n', '\\', '(', '[', '\x7b', ')', ']', '\x7d']

variable {fuel depth : Nat} {done : List Token} {c : Char} {cs rest : List Char} {token : Token}

theorem ne_of_not_mem_marks {x : Char} (hc : c ∉ marks) (hx : x ∈ marks) : c ≠ x :=
  fun he => hc (he ▸ hx)

theorem isSpace_eq_false (hc : c ∉ marks) : isSpace c = false := by
  have hs : c ≠ ' ' := ne_of_not_mem_marks hc (by decide)
  have ht : c ≠ '\t' := ne_of_not_mem_marks hc (by decide)
  simp [isSpace, hs, ht]

theorem dropWhile_isSpace (hc : c ∉ marks) : (c :: cs).dropWhile isSpace = c :: cs := by
  simp [isSpace_eq_false hc]

-- Where a line starts, the scanner looks for blank lines and comments only.
theorem lines?_fresh (hc : c ∉ marks) :
    lines? (fuel + 1) depth true done (c :: cs) = lines? fuel depth false done (c :: cs) := by
  have hn : c ≠ '\n' := ne_of_not_mem_marks hc (by decide)
  have hh : c ≠ '#' := ne_of_not_mem_marks hc (by decide)
  rw [lines?.eq_def]
  dsimp only
  rw [dropWhile_isSpace hc]
  simp [hn, hh, isSpace_eq_false hc]

theorem lines?_token (hc : c ∉ marks) (h : read? (c :: cs) = some (token, rest)) :
    lines? (fuel + 1) depth false done (c :: cs) =
      lines? fuel depth false (token :: done) rest := by
  have hne {x : Char} (hx : x ∈ marks) : c ≠ x := ne_of_not_mem_marks hc hx
  have ho : ¬(c == '(' || c == '[' || c == '\x7b') := by
    simp [hne (x := '(') (by decide), hne (x := '[') (by decide), hne (x := '\x7b') (by decide)]
  have hcl : ¬(c == ')' || c == ']' || c == '\x7d') := by
    simp [hne (x := ')') (by decide), hne (x := ']') (by decide), hne (x := '\x7d') (by decide)]
  rw [lines?.eq_def]
  dsimp only
  rw [dropWhile_isSpace hc]
  split
  case h_1 he => contradiction
  case h_6 he =>
    cases he
    rw [if_neg ho, if_neg hcl, h]
  all_goals exact absurd (List.cons.inj ‹_›).left (hne (by decide))

theorem continuesName_of_startsName (h : startsName c) : continuesName c := by
  simp [continuesName, h]

theorem ne_of_continuesName {x : Char} (h : continuesName c) (hx : continuesName x = false) :
    c ≠ x :=
  fun he => Bool.false_ne_true (hx.symm.trans (he ▸ h))

theorem not_mem_marks (h : continuesName c) : c ∉ marks := by
  have hn : marks.any continuesName = false := by decide +kernel
  exact fun hm => List.any_eq_false.mp hn c hm h

-- A name ends before a character that is not part of names. It is not an `r` before a quote.
theorem read?_name {d : Char} (hc : startsName c) (hcs : ∀ x ∈ cs, continuesName x)
    (hd : continuesName d = false) (hq : d ≠ '\'' ∧ d ≠ '"') :
    read? (c :: (cs ++ d :: rest)) = (word? (Text.ofChars (c :: cs))).map (·, d :: rest) := by
  have hw : ∀ x ∈ c :: cs, continuesName x :=
    List.forall_mem_cons.mpr ⟨continuesName_of_startsName hc, hcs⟩
  have hs : continuesName '\'' = false := by decide +kernel
  have hdq : continuesName '"' = false := by decide +kernel
  have hfirst {q : Char} (h : continuesName q = false) : c ≠ q :=
    ne_of_continuesName (continuesName_of_startsName hc) h
  have hnext {q : Char} {cs' : List Char} (h : continuesName q = false) (hne : d ≠ q) :
      cs ++ d :: rest ≠ q :: cs' := by
    intro he
    cases cs
    case nil => exact hne (List.cons.inj he).left
    case cons x cs =>
      exact ne_of_continuesName (hcs x List.mem_cons_self) h (List.cons.inj he).left
  have hstop : ¬(d :: rest).head?.any continuesName := by simp [hd]
  have ht := takeWhile_append_of_stop hw hstop
  have hdrop := dropWhile_append_of_stop hw hstop
  rw [List.cons_append] at ht hdrop
  unfold read?
  split
  case h_1 he => cases he
  case h_2 he => exact absurd (List.cons.inj he).left (hfirst hs)
  case h_3 he => exact absurd (List.cons.inj he).left (hfirst hdq)
  case h_4 he => exact absurd (List.cons.inj he).right (hnext hs hq.left)
  case h_5 he => exact absurd (List.cons.inj he).right (hnext hdq hq.right)
  case h_6 he =>
    cases he
    rw [if_pos hc, ht, hdrop]

theorem read?_assign (hc : c ≠ '=') : read? ('=' :: c :: cs) = some (.assign, c :: cs) := by
  have hs : startsName '=' = false := by decide +kernel
  have hm : mark? ('=' :: c :: cs) = some (.assign, c :: cs) := by simp [mark?, hc]
  simp [read?, hs, hm]

theorem unifyLineEnds_of_not_mem (h : '\r' ∉ cs) (done : List Char) :
    unifyLineEnds done cs = done.reverse ++ cs := by
  induction cs generalizing done
  case nil => simp [unifyLineEnds]
  case cons c cs hi =>
    obtain ⟨hc, h⟩ := not_or.mp (mt List.mem_cons.mpr h)
    have hc : c ≠ '\r' := Ne.symm hc
    rw [unifyLineEnds, hi h]
    all_goals simp_all

theorem lines?_assignment (hc : startsName c) (hcs : ∀ x ∈ cs, continuesName x)
    (ht : word? (Text.ofChars (c :: cs)) = some token) :
    lines? (fuel + 6) 0 true [] ('r' :: 'c' :: '=' :: c :: (cs ++ ['\n'])) =
      some [.name result, .assign, token, .newline] := by
  have hc' := continuesName_of_startsName hc
  have heq : continuesName '=' = false := by decide +kernel
  have hresult : read? ('r' :: 'c' :: '=' :: c :: (cs ++ ['\n'])) =
      some (.name result, '=' :: c :: (cs ++ ['\n'])) :=
    read?_name (c := 'r') (by decide +kernel) (List.forall_mem_singleton.mpr (by decide +kernel))
      heq (by decide)
  have hname : read? (c :: (cs ++ ['\n'])) = some (token, ['\n']) := by
    rw [read?_name hc hcs (by decide +kernel) (by decide), ht]
    rfl
  rw [lines?_fresh (by decide), lines?_token (by decide) hresult,
    lines?_token (by decide) (read?_assign (ne_of_continuesName hc' heq)),
    lines?_token (not_mem_marks hc') hname]
  rfl

variable {name : Text}

theorem scan?_assignment (h : IsName name) :
    scan? (result ++ '='.toUInt8 :: name ++ ['\n'.toUInt8]) =
      some [.name result, .assign, .name name, .newline] := by
  have hw := word?_of_isName h
  obtain ⟨c, cs, he, hc, hcs⟩ := h.exists_chars
  have ht : result ++ '='.toUInt8 :: name ++ ['\n'.toUInt8] =
      Text.ofChars ('r' :: 'c' :: '=' :: c :: (cs ++ ['\n'])) := by
    simp [he, Text.ofChars]
    rfl
  have hreturn {x : Char} (hx : continuesName x) : '\r' ≠ x :=
    (ne_of_continuesName hx (by decide +kernel)).symm
  have hr : '\r' ∉ 'r' :: 'c' :: '=' :: c :: (cs ++ ['\n']) := by
    simp only [List.mem_cons, List.mem_append, List.not_mem_nil, or_false, not_or]
    exact ⟨by decide, by decide, by decide, hreturn (continuesName_of_startsName hc),
      fun hm => hreturn (hcs _ hm) rfl, by decide⟩
  have hf : 2 * ('r' :: 'c' :: '=' :: c :: (cs ++ ['\n'])).length + 2 =
      (2 * cs.length + 6) + 6 := by
    simp only [List.length_cons, List.length_append, List.length_nil]
    omega
  rw [scan?, ht, Text.chars_ofChars, unifyLineEnds_of_not_mem hr, List.reverse_nil,
    List.nil_append, hf]
  exact lines?_assignment hc hcs (he ▸ hw)

end Token

theorem Step.read?_assignment (h : Token.IsName name) :
    Step.read? (result ++ '='.toUInt8 :: name ++ ['\n'.toUInt8]) =
      some [.assign (.name result) (.name name)] := by
  rw [Step.read?, Token.scan?_assignment h]
  rfl

-- The name of the result is assigned by the program, so that its value is not that of `outer`, and
-- it has none before the assignment is done.
theorem Step.runAll?_assignment (outer : Text → Option Value) (name : Text) :
    Step.runAll? outer [.assign (.name result) (.name name)] =
      if name = result then none else (outer name).map fun v => { names := [(result, v)] } := by
  have he : [result].eraseDups.length = 1 := by decide
  by_cases hn : name = result
  case pos =>
    subst hn
    rfl
  case neg =>
    cases ho : outer name <;>
      simp [Step.runAll?, Step.targets?, Term.targets?, Step.allNames, Term.allNames, Scope.knows,
        Step.run, Term.eval, Term.assign, Scope.value?, Memory.setName, hn, ho, he]

theorem Builtin.value?_ne_int (name : Text) (n : Int) : Builtin.value? name ≠ some (.int n) := by
  intro h
  rw [Builtin.value?] at h
  cases hl : names.lookup name
  case none => simp [hl] at h
  case some v =>
    obtain ⟨before, after, he, _⟩ := List.lookup_eq_some_iff.mp hl
    have hm : (name, v) ∈ names := by simp [he]
    simp only [hl, Option.some_or, Option.some.injEq] at h
    subst h
    simp [names] at hm

theorem value?_name (h : Token.IsName name) (scope : Text → Option Int) :
    value? scope name = if name = result then none else scope name := by
  simp only [value?, Step.read?_assignment h, Step.runAll?_assignment]
  by_cases hn : name = result
  case pos => simp only [if_pos hn]
  case neg =>
    simp only [if_neg hn]
    cases scope name
    case some n => simp
    case none =>
      cases hb : Builtin.value? name
      case none => simp
      case some v => cases v <;> simp_all [Builtin.value?_ne_int]

-- What is assumed of an evaluator. A name that is declared is worth its value, unless it is the one
-- to which the program around an expression assigns the result: that name has no value before.
structure Predeclares (evaluator : (Text → Option Int) → Text → Option Int) : Prop where
  declared : ∀ {names name v}, Token.IsName name → name ≠ result → names name = some v →
    evaluator names name = some v
  assigned : ∀ names, evaluator names result = none

theorem predeclares_value? : Predeclares value? where
  declared h hn hv := by rw [value?_name h, if_neg hn, hv]
  assigned names   := by
    rw [value?_name ⟨by decide, by decide, by decide, by decide⟩, if_pos rfl]

end Expression

end ByteAsm
