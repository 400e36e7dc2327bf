import ByteAsm.Proofs.Instructions
import ByteAsm.Proofs.NumberWords

namespace ByteAsm

namespace Operand

-- What can be wrong with an operand.
inductive Fault : Error → Prop
  | malformed      : Fault .malformed
  | operandRange   : Fault .operandRange
  | offsetRange    : Fault .offsetRange
  | characterCount : Fault .characterCount
  | notANumber     : Fault (.notANumber word)

-- What can be wrong with a word, in brackets or not. A word that is no number is reported whole.
inductive WordFault (word : Text) : Error → Prop
  | notANumber   : WordFault word (.notANumber word)
  | operandRange : WordFault word .operandRange
  | offsetRange  : WordFault word .offsetRange

variable {raw word inner name : Text} {op : Operand} {kind : OperandKind} {e : Error}

theorem WordFault.fault (h : WordFault word e) : Fault e := by
  cases h
  case notANumber => exact .notANumber
  case operandRange => exact .operandRange
  case offsetRange => exact .offsetRange

theorem wordFault_of_ofNumber (h : ofNumber kind word = .error e) : WordFault word e := by
  unfold ofNumber at h
  split at h
  case h_1 hn =>
    cases h
    obtain rfl | rfl := Word.number_eq_error hn
    case inl => exact .notANumber
    case inr => exact .operandRange
  case h_2 =>
    split at h <;> cases h
    exact .operandRange

theorem wordFault_of_encode {base : Register} {x : Except Numeral.Fault Int}
    (h : Word.offset?.encode word base x = .error e) : WordFault word e := by
  unfold Word.offset?.encode at h
  split at h
  case h_1 =>
    cases h
    exact .offsetRange
  case h_2 =>
    cases h
    exact .notANumber
  case h_3 =>
    split at h <;> cases h
    exact .offsetRange

theorem wordFault_of_offset? (h : Word.offset? word = some (.error e)) : WordFault word e := by
  unfold Word.offset? at h
  split at h <;> try contradiction
  split at h
  case isTrue => exact wordFault_of_encode (Option.some.inj h)
  case isFalse =>
    split at h <;> try contradiction
    exact wordFault_of_encode (Option.some.inj h)

theorem wordFault_of_ofWord (h : ofWord word = .error e) : WordFault word e := by
  unfold ofWord at h
  split at h <;> try contradiction
  split at h <;> try contradiction
  exact wordFault_of_ofNumber h

theorem wordFault_of_ofAddress (h : ofAddress word = .error e) : WordFault word e := by
  unfold ofAddress at h
  split at h <;> try contradiction
  split at h <;> try contradiction
  split at h <;> try contradiction
  case h_2 ho =>
    cases h
    exact wordFault_of_offset? ho
  case h_3 => exact wordFault_of_ofNumber h

theorem ofString_eq_error (h : ofString inner = .error e) : e = .operandRange := by
  unfold ofString unitBytes at h
  split at h <;> cases h
  rfl

theorem ofCharacter_eq_error (h : ofCharacter inner = .error e) :
    e = .operandRange ∨ e = .characterCount := by
  unfold ofCharacter at h
  split at h
  case h_1 =>
    split at h <;> cases h
    exact .inl rfl
  case h_2 =>
    cases h
    exact .inr rfl

theorem fault_of_inside_bind {close : UInt8} {f : Text → Except Error Operand}
    (hf : ∀ {w e}, f w = .error e → Fault e) (h : inside close raw >>= f = .error e) :
    Fault e := by
  unfold inside at h
  split at h
  case h_1 => exact hf h
  case h_2 =>
    cases h
    exact .malformed

theorem fault_of_ofCharacter (h : ofCharacter inner = .error e) : Fault e := by
  obtain rfl | rfl := ofCharacter_eq_error h
  case inl => exact .operandRange
  case inr => exact .characterCount

theorem fault_of_classify (h : classify raw = .error e) : Fault e := by
  unfold classify at h
  split at h <;> try contradiction
  split at h
  case isTrue => exact fault_of_inside_bind (fun h => (wordFault_of_ofAddress h).fault) h
  case isFalse =>
    split at h
    case isTrue => exact fault_of_inside_bind (fun h => ofString_eq_error h ▸ .operandRange) h
    case isFalse =>
      split at h
      case isTrue => exact fault_of_inside_bind fault_of_ofCharacter h
      case isFalse => exact (wordFault_of_ofWord h).fault

theorem classifyAll_eq_error {raws : List Text} (h : classifyAll raws = .error e) :
    ∃ raw ∈ raws, classify raw = .error e := by
  induction raws
  case nil => contradiction
  case cons raw raws hi =>
    rw [classifyAll] at h
    split at h
    case h_1 hc =>
      cases h
      exact ⟨raw, List.mem_cons_self, hc⟩
    case h_2 =>
      split at h <;> cases h
      case h_1 ha =>
        obtain ⟨raw', hm, hc⟩ := hi ha
        exact ⟨raw', List.mem_cons_of_mem _ hm, hc⟩

end Operand

-- What can be wrong with a command, its operands first.
inductive Command.Fault : Error → Prop
  | operand             : Operand.Fault e → Fault e
  | unknownMnemonic     : Fault (.unknownMnemonic m)
  | tooManyOperands     : Fault (.tooManyOperands m)
  | unsupportedOperands : Fault (.unsupportedOperands m)

-- What can be wrong with a command whose operands have been classified.
inductive Command.Misfit : Error → Prop
  | unknownMnemonic     : Misfit (.unknownMnemonic m)
  | tooManyOperands     : Misfit (.tooManyOperands m)
  | unsupportedOperands : Misfit (.unsupportedOperands m)

theorem Statement.misfit_of_ofData {ops : List Operand} {e : Error} (h : ofData ops = .error e) :
    Command.Misfit e := by
  unfold ofData at h
  split at h
  case h_1 =>
    split at h <;> cases h
    exact .unsupportedOperands
  case h_2 =>
    cases h
    exact .unsupportedOperands

theorem InstructionSet.misfit_of_select {m : Text} {first second : OperandKind} {e : Error}
    (h : select m first second = .error e) : Command.Misfit e := by
  unfold select at h
  split at h
  case h_1 =>
    cases h
    exact .unknownMnemonic
  case h_2 =>
    split at h <;> cases h
    exact .unsupportedOperands

theorem Statement.misfit_of_ofOperands {m : Text} {ops : List Operand} {e : Error}
    (h : ofOperands m ops = .error e) : Command.Misfit e := by
  rw [ofOperands_eq] at h
  cases hs : InstructionSet.select m (Operand.kindAt ops 0) (Operand.kindAt ops 1) <;> rw [hs] at h
  case ok => contradiction
  case error =>
    cases h
    exact InstructionSet.misfit_of_select hs

namespace Command

variable {c : Command} {e : Error}

theorem statement_eq_error (h : c.statement = .error e) :
    (∃ raw ∈ c.operands, Operand.classify raw = .error e) ∨ Misfit e := by
  unfold statement at h
  split at h
  case h_1 =>
    cases h
    exact .inr .unknownMnemonic
  case h_2 =>
    split at h
    case h_1 hc =>
      cases h
      obtain ⟨raw, hm, he⟩ := Operand.classifyAll_eq_error hc
      exact .inl ⟨raw, List.mem_of_mem_take hm, he⟩
    case h_2 =>
      split at h
      case isTrue =>
        cases h
        exact .inr .tooManyOperands
      case isFalse =>
        split at h
        case isTrue => exact .inr (Statement.misfit_of_ofData h)
        case isFalse => exact .inr (Statement.misfit_of_ofOperands h)

theorem fault_of_statement (h : c.statement = .error e) : Fault e := by
  obtain ⟨_, _, he⟩ | hm := statement_eq_error h
  case inl => exact .operand (Operand.fault_of_classify he)
  case inr =>
    cases hm
    case unknownMnemonic => exact .unknownMnemonic
    case tooManyOperands => exact .tooManyOperands
    case unsupportedOperands => exact .unsupportedOperands

end Command

end ByteAsm
