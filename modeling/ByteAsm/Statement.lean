import ByteAsm.Encoding
import ByteAsm.Line
import ByteAsm.Operand.Classify

namespace ByteAsm

inductive Statement
  | data (op : Operand)
  | instruction (enc : Encoding) (ops : List Operand)
deriving DecidableEq

-- A byte of code, or a place for the offset of a label.
inductive Slot
  | byte (b : UInt8)
  | label (name : Text)
deriving DecidableEq

def Operand.slot (op : Operand) : Slot :=
  match op.label with
  | some name => .label name
  | none => .byte op.value

def Statement.slots : Statement → List Slot
  | data op =>
    match op.kind with
    | .numbers => op.values.map Slot.byte
    | _ => [op.slot]
  | instruction enc ops => .byte enc.opcode :: ops.map Operand.slot

def Statement.isData : Statement → Bool
  | data _ => true
  | instruction _ _ => false

def Operand.classifyAll : List Text → Except Error (List Operand)
  | [] => .ok []
  | raw :: rest =>
    match classify raw with
    | .error e => .error e
    | .ok op =>
      match classifyAll rest with
      | .error e => .error e
      | .ok ops => .ok (op :: ops)

def Statement.ofData : List Operand → Except Error Statement
  | [op] =>
    if op.kind = .number ∨ op.kind = .numbers then .ok (.data op)
    else .error (.unsupportedOperands InstructionSet.data)
  | _ => .error (.unsupportedOperands InstructionSet.data)

def Statement.ofOperands (mnemonic : Text) (ops : List Operand) : Except Error Statement :=
  let kind (n : Nat) := (ops.getD n Operand.absent).kind
  (InstructionSet.select mnemonic (kind 0) (kind 1)).map fun enc => .instruction enc ops

-- The statement of a command. Operands that the mnemonic takes are classified before superfluous
-- ones are refused.
def Command.statement (c : Command) : Except Error Statement :=
  match InstructionSet.arity? c.mnemonic with
  | none => .error (.unknownMnemonic c.mnemonic)
  | some n =>
    match Operand.classifyAll (c.operands.take n) with
    | .error e => .error e
    | .ok ops =>
      if n < c.operands.length then .error (.tooManyOperands c.mnemonic.upper)
      else if c.mnemonic.upper = InstructionSet.data then Statement.ofData ops
      else Statement.ofOperands c.mnemonic.upper ops

end ByteAsm
