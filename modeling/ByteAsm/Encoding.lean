import ByteAsm.Error
import ByteAsm.Operand
import ByteAsm.Text.UpperCase

namespace ByteAsm

structure Encoding where
  mnemonic : Text
  opcode   : UInt8
  first    : OperandKind := .none
  second   : OperandKind := .none
deriving DecidableEq

namespace Encoding

def arity (enc : Encoding) : Nat :=
  [enc.first, enc.second].countP (· ≠ .none)

def size (enc : Encoding) : Nat :=
  1 + enc.arity

def render (enc : Encoding) : Text :=
  match enc.arity with
  | 0 => enc.mnemonic
  | 1 => enc.mnemonic ++ ' '.toUInt8 :: enc.first.name
  | _ => enc.mnemonic ++ ' '.toUInt8 :: enc.first.name ++ ','.toUInt8 :: enc.second.name

end Encoding

namespace InstructionSet

open OperandKind (register regaddress address number)

-- A register combined with each kind of source, by the opcodes of the four kinds.
def arithmetic (mnemonic : Text) (reg regaddr addr num : UInt8) : List Encoding := [
  ⟨mnemonic, reg, register, register⟩,
  ⟨mnemonic, regaddr, register, regaddress⟩,
  ⟨mnemonic, addr, register, address⟩,
  ⟨mnemonic, num, register, number⟩]

-- A jump to the address in a register or to a given one.
def jump (mnemonic : Text) (reg num : UInt8) : List Encoding := [
  ⟨mnemonic, reg, register, .none⟩,
  ⟨mnemonic, num, number, .none⟩]

def unary (mnemonic : Text) (reg regaddr addr num : UInt8) : List Encoding := [
  ⟨mnemonic, reg, register, .none⟩,
  ⟨mnemonic, regaddr, regaddress, .none⟩,
  ⟨mnemonic, addr, address, .none⟩,
  ⟨mnemonic, num, number, .none⟩]

-- All encodings. Those of one mnemonic have the same arity.
def encodings : List Encoding :=
  [⟨"HLT", 0, .none, .none⟩,
    ⟨"MOV", 1, register, register⟩,
    ⟨"MOV", 2, register, address⟩,
    ⟨"MOV", 3, register, regaddress⟩,
    ⟨"MOV", 4, address, register⟩,
    ⟨"MOV", 5, regaddress, register⟩,
    ⟨"MOV", 6, register, number⟩,
    ⟨"MOV", 7, address, number⟩,
    ⟨"MOV", 8, regaddress, number⟩] ++
  arithmetic "ADD" 10 11 12 13 ++
  arithmetic "SUB" 14 15 16 17 ++
  [⟨"INC", 18, register, .none⟩, ⟨"DEC", 19, register, .none⟩] ++
  arithmetic "CMP" 20 21 22 23 ++
  jump "JMP" 30 31 ++
  jump "JC" 32 33 ++
  jump "JNC" 34 35 ++
  jump "JZ" 36 37 ++
  jump "JNZ" 38 39 ++
  jump "JA" 40 41 ++
  jump "JNA" 42 43 ++
  unary "PUSH" 50 51 52 53 ++
  [⟨"POP", 54, register, .none⟩] ++
  jump "CALL" 55 56 ++
  [⟨"RET", 57, .none, .none⟩] ++
  unary "MUL" 60 61 62 63 ++
  unary "DIV" 64 65 66 67 ++
  arithmetic "AND" 70 71 72 73 ++
  arithmetic "OR" 74 75 76 77 ++
  arithmetic "XOR" 78 79 80 81 ++
  [⟨"NOT", 82, register, .none⟩] ++
  arithmetic "SHL" 90 91 92 93 ++
  arithmetic "SHR" 94 95 96 97

def aliases : List (Text × Text) := [
  ("JB", "JC"), ("JNAE", "JC"),
  ("JNB", "JNC"), ("JAE", "JNC"),
  ("JE", "JZ"), ("JNE", "JNZ"),
  ("JNBE", "JA"), ("JBE", "JNA"),
  ("SAL", "SHL"), ("SAR", "SHR")]

def data : Text :=
  "DB"

def canonical (mnemonic : Text) : Text :=
  (aliases.lookup mnemonic.upper).getD mnemonic.upper

def ofMnemonic (mnemonic : Text) : List Encoding :=
  let name := canonical mnemonic
  encodings.filter (·.mnemonic = name)

def arity? (mnemonic : Text) : Option Nat :=
  if mnemonic.upper = data then some 1
  else (ofMnemonic mnemonic).head?.map (·.arity)

def select (mnemonic : Text) (first second : OperandKind) : Except Error Encoding :=
  match ofMnemonic mnemonic with
  | [] => .error (.unknownMnemonic mnemonic)
  | forms =>
    match forms.find? fun enc => enc.first = first ∧ enc.second = second with
    | some enc => .ok enc
    | none => .error (.unsupportedOperands mnemonic.upper)

def lookup? (opcode : UInt8) : Option Encoding :=
  encodings.find? (·.opcode = opcode)

def render (opcode : UInt8) : Text :=
  match lookup? opcode with
  | some enc => enc.render
  | none => Text.ofString "CodeOp(" ++ Numeral.natural opcode.toNat ++ [')'.toUInt8]

def mnemonics : List Text :=
  (encodings.map (·.mnemonic)).eraseDups.mergeSort fun a b => decide (a ≤ b)

end InstructionSet

end ByteAsm
