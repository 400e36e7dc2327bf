import ByteAsm.Proofs.Grammar

namespace ByteAsm.Line

-- Operands with the blanks and the comma that belong to them, and what follows.
inductive OperandsCut : List Text → (o rest : Text) → Prop
  | none {rest : Text} : OperandsCut [] [] rest
  | one {b op rest : Text} : Blanks b → b ≠ [] → Operand.Written op →
    (Operand.EndsBefore op rest) → OperandsCut [op] (b ++ op) rest
  | two {b b₁ b₂ op₁ op₂ rest : Text} : Blanks b → b ≠ [] → Operand.Written op₁ → Blanks b₁ →
    Blanks b₂ → Operand.Written op₂ →
    (Operand.EndsBefore op₁ (b₁ ++ ','.toUInt8 :: (b₂ ++ (op₂ ++ rest)))) →
    (Operand.EndsBefore op₂ rest) →
    OperandsCut [op₁, op₂] (b ++ (op₁ ++ (b₁ ++ ','.toUInt8 :: (b₂ ++ op₂)))) rest

inductive CommandCut : Option Command → (c rest : Text) → Prop
  | none {rest : Text} : CommandCut none [] rest
  | some {m o rest : Text} {ops : List Text} : IsMnemonic m → ¬(o ++ rest).head?.any Byte.isWord →
    OperandsCut ops o rest → CommandCut (some ⟨m, ops⟩) (m ++ o) rest

-- A label with its colon, a command and a tail, with blanks before the first two.
inductive Cut : Text → Line → Prop
  | mk {b₁ b₂ l c tail : Text} {label : Option Text} {command : Option Command} :
    Blanks b₁ → LabelWritten label l → Blanks b₂ → CommandCut command c tail → Tail tail →
    Cut (b₁ ++ (l ++ (b₂ ++ (c ++ tail)))) ⟨label, command⟩

variable {t o c tail : Text} {ops : List Text} {command : Option Command} {line : Line}

-- Before a tail the look-ahead asks for nothing that the form of the parts does not give.
theorem operandsCut_iff (ht : Tail tail) : OperandsCut ops o tail ↔ OperandsWritten ops o := by
  have hend {op : Text} : Operand.EndsBefore op tail := fun _ => ht.stops.not_word
  constructor
  case mp =>
    intro h
    cases h
    case none => exact .none
    case one hb hn hw _ => exact .one hb hn hw
    case two hb hn hw₁ hb₁ hb₂ hw₂ _ _ => exact .two hb hn hw₁ hb₁ hb₂ hw₂
  case mpr =>
    intro h
    cases h
    case none => exact .none
    case one hb hn hw => exact .one hb hn hw hend
    case two hb hn hw₁ hb₁ hb₂ hw₂ =>
      refine .two hb hn hw₁ hb₁ hb₂ hw₂ (fun _ => ?_) hend
      exact not_word_of_blanks hb₁ (by simp; decide)

theorem commandCut_iff (ht : Tail tail) : CommandCut command c tail ↔ CommandWritten command c := by
  constructor
  case mp =>
    intro h
    cases h
    case none => exact .none
    case some hm _ ho => exact .some hm ((operandsCut_iff ht).mp ho)
  case mpr =>
    intro h
    cases h
    case none => exact .none
    case some hm ho => exact .some hm (operands_head ho ht).left ((operandsCut_iff ht).mpr ho)

theorem cut_iff_written : Cut t line ↔ Written t line := by
  constructor
  case mp =>
    intro h
    cases h
    case mk hb₁ hl hb₂ hc ht => exact .mk hb₁ hl hb₂ ((commandCut_iff ht).mp hc) ht
  case mpr =>
    intro h
    cases h
    case mk hb₁ hl hb₂ hc ht => exact .mk hb₁ hl hb₂ ((commandCut_iff ht).mpr hc) ht

theorem read_eq_ok_iff_cut : read t = .ok line ↔ Cut t line :=
  read_eq_ok_iff.trans cut_iff_written.symm

theorem read_eq_error_iff : read t = .error .malformed ↔ ∀ line, read t ≠ .ok line := by
  simp only [read]
  split <;> simp

-- A line is read as the parts that it can be cut into, in the only way there is.
theorem read_exactly_cuts (t : Text) :
    (∀ line, read t = .ok line ↔ Cut t line) ∧
    (∀ line line', Cut t line → Cut t line' → line = line') ∧
    (read t = .error .malformed ↔ ¬∃ line, Cut t line) := by
  refine ⟨fun line => read_eq_ok_iff_cut, fun line line' h h' => ?_, ?_⟩
  case refine_1 =>
    have hr := read_eq_ok_iff_cut.mpr h
    have hr' := read_eq_ok_iff_cut.mpr h'
    exact Except.ok.inj (hr.symm.trans hr')
  case refine_2 =>
    rw [read_eq_error_iff, not_exists]
    exact forall_congr' fun line => not_congr read_eq_ok_iff_cut

-- A string of a quote and a semicolon, and white space beyond ASCII before the comment. Behind a
-- comma there must be an operand.
theorem read_exactly_cuts_of_quotes :
    let t := Text.ofString "\t.l:mov  \"\";\",[sp-03]\u00a0; '"
    let line : Line := ⟨some (Text.ofString ".l"), some ⟨Text.ofString "mov",
      [Text.ofString "\"\";\"", Text.ofString "[sp-03]"]⟩⟩
    Cut t line ∧ (∀ line', Cut t line' → line' = line) ∧
      ¬∃ line', Cut (Text.ofString "MOV A,") line' := by
  intro t line
  obtain ⟨hiff, hone, _⟩ := read_exactly_cuts t
  obtain ⟨_, _, hnone⟩ := read_exactly_cuts (Text.ofString "MOV A,")
  have hc : Cut t line := (hiff line).mp rfl
  exact ⟨hc, fun line' h => hone line' line h hc, hnone.mp rfl⟩

end ByteAsm.Line
