import ByteAsm.Operand
import ByteAsm.Operand.Word

namespace ByteAsm.Operand

def unitBytes (units : List Nat) : Except Error (List UInt8) :=
  if units.all (· ≤ 255) then .ok (units.map UInt8.ofNat) else .error .operandRange

def ofNumber (kind : OperandKind) (word : Text) : Except Error Operand :=
  match Word.number word with
  | .error e => .error e
  | .ok value =>
    if 0 ≤ value ∧ value ≤ 255 then .ok { kind, value := UInt8.ofNat value.toNat }
    else .error .operandRange

def ofWord (word : Text) : Except Error Operand :=
  match Register.ofWord? word with
  | some r => .ok { kind := .register, value := r.id }
  | none =>
    if Word.isLabel word then .ok { kind := .number, label := some word }
    else ofNumber .number word

def ofAddress (word : Text) : Except Error Operand :=
  match Register.ofWord? word with
  | some r => .ok { kind := .regaddress, value := r.id }
  | none =>
    if Word.isLabel word then .ok { kind := .address, label := some word }
    else match Word.offset? word with
      | some (.ok encoded) => .ok { kind := .regaddress, value := encoded }
      | some (.error e) => .error e
      | none => ofNumber .address word

def inside (close : UInt8) (rest : Text) : Except Error Text :=
  match Text.dropEnd? close rest with
  | some (c :: inner) => .ok (c :: inner)
  | _ => .error .malformed

def ofString (inner : Text) : Except Error Operand :=
  (unitBytes (Text.units inner)).map fun values => { kind := .numbers, values }

def ofCharacter (inner : Text) : Except Error Operand :=
  match Text.units inner with
  | [unit] =>
    if unit ≤ 255 then .ok { kind := .number, value := UInt8.ofNat unit } else .error .operandRange
  | _ => .error .characterCount

def classify (raw : Text) : Except Error Operand :=
  match raw with
  | [] => .ok absent
  | c :: rest =>
    if c == '['.toUInt8 then inside ']'.toUInt8 rest >>= ofAddress
    else if c == '"'.toUInt8 then inside '"'.toUInt8 rest >>= ofString
    else if c == '\''.toUInt8 then inside '\''.toUInt8 rest >>= ofCharacter
    else ofWord raw

end ByteAsm.Operand
