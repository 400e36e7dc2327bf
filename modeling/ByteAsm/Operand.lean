import ByteAsm.Numeral

namespace ByteAsm

-- The addressing form of an operand. Codes beyond those of the named forms are unassigned.
inductive OperandKind
  | none
  | register
  | regaddress
  | address
  | number
  | numbers
  | unassigned (code : Int) (h : code < 0 ∨ 5 < code)
deriving DecidableEq

namespace OperandKind

def code : OperandKind → Int
  | none => 0
  | register => 1
  | regaddress => 2
  | address => 3
  | number => 4
  | numbers => 5
  | unassigned code _ => code

def ofCode (code : Int) : OperandKind :=
  if h : code < 0 ∨ 5 < code then unassigned code h
  else if code = 0 then none
  else if code = 1 then register
  else if code = 2 then regaddress
  else if code = 3 then address
  else if code = 4 then number
  else numbers

theorem ofCode_code (k : OperandKind) : ofCode k.code = k := by
  cases k <;> simp_all [ofCode, code]

theorem code_ofCode (n : Int) : (ofCode n).code = n := by
  unfold ofCode
  repeat' split
  all_goals simp_all [code]
  all_goals omega

def name : OperandKind → Text
  | none => "none"
  | register => "register"
  | regaddress => "regaddress"
  | address => "address"
  | number => "number"
  | numbers => "numbers"
  | unassigned code _ => Text.ofString "OperandKind(" ++ Numeral.decimal code ++ [')'.toUInt8]

end OperandKind

-- A classified operand. An address or a number may be given by a label, whose offset is known only
-- once all lines are read; `values` are the bytes of a string.
structure Operand where
  kind   : OperandKind := .none
  value  : UInt8 := 0
  label  : Option Text := none
  values : List UInt8 := []
deriving DecidableEq

def Operand.absent : Operand := {}

def Operand.render (op : Operand) : Text :=
  op.kind.name ++ ':'.toUInt8 :: content
where
  content :=
    match op.kind, op.label with
    | .numbers, _ =>
      '['.toUInt8 :: Text.join " " (op.values.map fun b => Numeral.natural b.toNat) ++ [']'.toUInt8]
    | _, some label => label
    | _, none => Numeral.natural op.value.toNat

end ByteAsm
