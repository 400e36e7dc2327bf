import ByteAsm.Proofs.Classification
import ByteAsm.Proofs.Faults
import ByteAsm.Proofs.FirstPass

namespace ByteAsm

open Text (inBrackets)

namespace Operand

variable {raw w : Text} {e : Error}

-- What can be wrong with an operand that is written as the grammar wants it: nothing about its
-- brackets and quotes.
inductive Refused : Text → Error → Prop
  | word {w : Text} {e : Error} : WordFault w e → Refused w e
  | address {w : Text} {e : Error} : WordFault w e → Refused (inBrackets w) e
  | range {raw : Text} : Refused raw .operandRange
  | count {raw : Text} : Refused raw .characterCount

theorem Written.refused (h : Written raw) (he : classify raw = .error e) : Refused raw e := by
  cases h
  case bracketed w hn _ =>
    rw [classify_bracketed hn] at he
    exact .address (wordFault_of_ofAddress he)
  case displaced w ds sign hn _ _ _ _ =>
    rw [classify_bracketed (by simp)] at he
    exact .address (wordFault_of_ofAddress he)
  case quoted q c t hq _ =>
    simp only [Line.isQuote, Bool.or_eq_true, beq_iff_eq] at hq
    obtain rfl | rfl := hq
    case inl =>
      rw [←List.cons_append, classify_string (List.cons_ne_nil c t)] at he
      exact ofString_eq_error he ▸ .range
    case inr =>
      rw [←List.cons_append, classify_character (List.cons_ne_nil c t)] at he
      obtain rfl | rfl := ofCharacter_eq_error he
      case inl => exact .range
      case inr => exact .count
  case word c w hs _ =>
    rw [classify_word w (by simpa using hs)] at he
    exact .word (wordFault_of_ofWord he)

-- What the classifier makes of an operand that has been scanned. Nothing is wrong with its brackets
-- and quotes, a word that starts like a label is a register or a label, and what is reported as no
-- number is all of the operand or all that its brackets hold.
structure Agrees (raw : Text) : Prop where
  closed    : classify raw ≠ .error .malformed
  word      : raw.head?.any Word.startsLabel →
    (∃ r, Register.ofWord? raw = some r ∧
      classify raw = .ok { kind := .register, value := r.id }) ∨
    classify raw = .ok { kind := .number, label := some raw }
  bracketed : ∀ inner, raw = inBrackets inner → inner.head?.any Byte.isLetter →
    '+'.toUInt8 ∉ inner → '-'.toUInt8 ∉ inner →
    (∃ r, Register.ofWord? inner = some r ∧
      classify raw = .ok { kind := .regaddress, value := r.id }) ∨
    classify raw = .ok { kind := .address, label := some inner }
  named     : ∀ w, classify raw = .error (.notANumber w) → w = raw ∨ raw = inBrackets w

theorem Refused.ne_malformed (h : Refused raw e) : e ≠ .malformed := by
  cases h
  case word h => cases h <;> simp
  case address h => cases h <;> simp
  all_goals simp

theorem Refused.eq_of_notANumber (h : Refused raw (.notANumber w)) :
    w = raw ∨ raw = inBrackets w := by
  cases h
  case word h =>
    cases h
    exact .inl rfl
  case address h =>
    cases h
    exact .inr rfl

theorem ofWord_of_isLabel (h : Word.isLabel w) :
    (∃ r, Register.ofWord? w = some r ∧ ofWord w = .ok { kind := .register, value := r.id }) ∨
      ofWord w = .ok { kind := .number, label := some w } := by
  unfold ofWord
  cases hr : Register.ofWord? w <;> dsimp only
  case none => exact .inr (if_pos h)
  case some r => exact .inl ⟨r, rfl, rfl⟩

theorem ofAddress_of_isLabel (h : Word.isLabel w) :
    (∃ r, Register.ofWord? w = some r ∧
      ofAddress w = .ok { kind := .regaddress, value := r.id }) ∨
    ofAddress w = .ok { kind := .address, label := some w } := by
  unfold ofAddress
  cases hr : Register.ofWord? w <;> dsimp only
  case none => exact .inr (if_pos h)
  case some r => exact .inl ⟨r, rfl, rfl⟩

theorem Written.isLabel (h : Written raw) (hs : raw.head?.any Word.startsLabel) :
    Word.isLabel raw := by
  cases h
  case word c w _ hw => exact Bool.and_eq_true_iff.mpr ⟨hs, List.all_eq_true.mpr hw⟩
  case quoted q c t hq _ =>
    exact absurd hq (Line.start_ne_bracket (Bool.or_eq_true_iff.mpr (.inl hs))).right
  all_goals exact absurd hs (by simp; decide)

theorem Written.isLabel_inner {inner : Text} (h : Written (inBrackets inner))
    (hl : inner.head?.any Byte.isLetter) (hp : '+'.toUInt8 ∉ inner) (hm : '-'.toUInt8 ∉ inner) :
    Word.isLabel inner := by
  have hw : ∀ c ∈ inner, Byte.isWord c := by
    generalize hr : inBrackets inner = raw at h
    cases h
    case bracketed w _ hw =>
      obtain rfl := List.append_cancel_right (List.cons.inj hr).right
      exact hw
    case displaced w ds sign _ _ hs _ _ =>
      obtain rfl := List.append_cancel_right (List.cons.inj hr).right
      obtain rfl | rfl := hs
      case inl => exact absurd (List.mem_append_right _ List.mem_cons_self) hp
      case inr => exact absurd (List.mem_append_right _ List.mem_cons_self) hm
    case quoted q _ _ hq _ =>
      obtain ⟨rfl, _⟩ := List.cons.inj hr
      exact absurd hq (by decide)
    case word c _ hs _ =>
      obtain ⟨rfl, _⟩ := List.cons.inj hr
      exact absurd hs (by decide)
  cases inner
  case nil => contradiction
  case cons c w =>
    have hs : Word.startsLabel c := Bool.or_eq_true_iff.mpr (.inr hl)
    refine Bool.and_eq_true_iff.mpr ⟨hs, List.all_eq_true.mpr fun x hx => ?_⟩
    exact hw x (List.mem_cons_of_mem c hx)

theorem Written.agrees (h : Written raw) : Agrees raw where
  closed he := (h.refused he).ne_malformed rfl
  word hs := by
    have hl := h.isLabel hs
    cases raw
    case nil => contradiction
    case cons c rest =>
      rw [classify_word rest (Bool.or_eq_true_iff.mpr (.inl hs))]
      exact ofWord_of_isLabel hl
  bracketed inner hr hl hp hm := by
    subst hr
    rw [inBrackets, classify_bracketed (by rintro rfl; contradiction)]
    exact ofAddress_of_isLabel (h.isLabel_inner hl hp hm)
  named w he := (h.refused he).eq_of_notANumber

end Operand

theorem Line.written_of_mem_operands {t raw : Text} {line : Line} {c : Command}
    (h : read t = .ok line) (hc : line.command = some c) (hm : raw ∈ c.operands) :
    Operand.Written raw := by
  cases written_of_read h
  case mk hw _ =>
    subst hc
    cases hw
    case some ho =>
      cases ho
      case none => contradiction
      case one hw => exact List.mem_singleton.mp hm ▸ hw
      case two hw₁ _ _ hw₂ =>
        obtain rfl | hm := List.mem_cons.mp hm
        case inl => exact hw₁
        case inr => exact List.mem_singleton.mp hm ▸ hw₂

namespace Expansion

theorem evaluate_ne_malformed (value? : Text → Option Int) (body : Text) :
    evaluate value? body ≠ .error .malformed := by
  unfold evaluate
  split
  case h_1 => simp
  case h_2 => split <;> simp

theorem replace_ne_malformed (value? : Text → Option Int) (skip : Nat) (done t : Text) :
    replace.go value? skip done t ≠ .error .malformed := by
  fun_induction replace.go value? skip done t
  case case1 => simp
  case case3 => simp
  case case7 he =>
    rintro ⟨⟩
    exact evaluate_ne_malformed _ _ he
  all_goals assumption

theorem expand_ne_malformed (value? : Text → Option Int) (t : Text) :
    expand value? t ≠ .error .malformed := by
  unfold expand
  split
  case isTrue => exact replace_ne_malformed value? 0 [] t
  case isFalse => simp

end Expansion

namespace Draft

theorem defineAny_ne_malformed (d : Draft) (label : Option Text) :
    d.defineAny label ≠ .error .malformed := by
  cases label
  case none => simp [defineAny]
  case some name =>
    unfold defineAny define
    dsimp only
    split
    case isTrue => simp
    case isFalse => split <;> simp

-- What has been scanned is never malformed when it is added.
theorem add_ne_malformed {t : Text} {line : Line} (h : Line.read t = .ok line) (d : Draft)
    (n : Nat) : d.add n line ≠ .error .malformed := by
  intro ha
  unfold add at ha
  split at ha
  case h_1 d _ =>
    cases hc : line.command <;> rw [hc] at ha
    case none => simp [placeAny] at ha
    case some c =>
      cases hs : c.statement <;> simp only [placeAny, hs, Except.map] at ha
      case ok => contradiction
      case error =>
        cases ha
        obtain ⟨raw, hm, he⟩ | hm := Command.statement_eq_error hs
        case inl => exact (Line.written_of_mem_operands h hc hm).agrees.closed he
        case inr => contradiction
  case h_2 hd =>
    cases ha
    exact defineAny_ne_malformed _ _ hd

theorem addLine_eq_malformed_iff {asm : Assembler} {n : Nat} {text : Text} {d : Draft} :
    addLine asm n text d = .error .malformed ↔
      ∃ t, Expansion.expand (d.value? asm n) text = .ok t ∧ Line.read t = .error .malformed := by
  rw [addLine_eq, Line.readIn]
  cases hx : Expansion.expand (d.value? asm n) text <;> dsimp only
  case error e =>
    have he : e ≠ .malformed := fun he => Expansion.expand_ne_malformed _ _ (he ▸ hx)
    simp [he]
  case ok t =>
    cases hr : Line.read t
    case error => simp [hr]
    case ok => simp [add_ne_malformed hr, hr]

end Draft

-- An operand that has been scanned is what the classifier expects, so that only the scanner finds a
-- line to be malformed.
theorem Line.operands_agree :
    (∀ t line c raw, read t = .ok line → line.command = some c → raw ∈ c.operands →
      Operand.Agrees raw) ∧
    ∀ asm n text d, Draft.addLine asm n text d = .error .malformed ↔
      ∃ t, Expansion.expand (d.value? asm n) text = .ok t ∧ read t = .error .malformed :=
  ⟨fun _ _ _ _ h hc hm => (written_of_mem_operands h hc hm).agrees,
    fun _ _ _ _ => Draft.addLine_eq_malformed_iff⟩

-- A word in brackets that is neither label nor number, and a quote between quotes.
theorem Line.operands_agree_of_marks :
    let text := Text.ofString "MOV [_x], '''"
    let bracketed := Text.ofString "[_x]"
    let quoted := Text.ofString "'''"
    read text = .ok { label := none, command := some ⟨Text.ofString "MOV", [bracketed, quoted]⟩ } ∧
      Operand.Agrees bracketed ∧ Operand.Agrees quoted ∧
      Operand.classify bracketed = .error (.notANumber (Text.ofString "_x")) ∧
      Operand.classify quoted = .ok { kind := .number, value := 39 } ∧
      Draft.addLine {} 0 text {} ≠ .error .malformed := by
  intro text bracketed quoted
  obtain ⟨hagree, hmalformed⟩ := operands_agree
  have hr : read text =
      .ok { label := none, command := some ⟨Text.ofString "MOV", [bracketed, quoted]⟩ } := by
    decide +kernel
  have hb : bracketed ∈ [bracketed, quoted] := by simp
  have hq : quoted ∈ [bracketed, quoted] := by simp
  refine ⟨hr, hagree _ _ _ _ hr rfl hb, hagree _ _ _ _ hr rfl hq, by decide +kernel,
    by decide +kernel, fun h => ?_⟩
  obtain ⟨t, hx, ht⟩ := (hmalformed {} 0 text {}).mp h
  have he : Expansion.expand (({} : Draft).value? {} 0) text = .ok text := by decide +kernel
  cases hx.symm.trans he
  cases ht.symm.trans hr

end ByteAsm
