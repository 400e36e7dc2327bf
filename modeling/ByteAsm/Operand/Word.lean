import ByteAsm.Error
import ByteAsm.Text.UpperCase

namespace ByteAsm

inductive Register
  | a | b | c | d | sp
deriving DecidableEq

namespace Register

def id : Register → UInt8
  | a => 0
  | b => 1
  | c => 2
  | d => 3
  | sp => 4

def name : Register → Text
  | a => "A"
  | b => "B"
  | c => "C"
  | d => "D"
  | sp => "SP"

def all : List Register :=
  [a, b, c, d, sp]

def ofWord? (word : Text) : Option Register :=
  let upper := word.upper
  all.find? fun r => r.name == upper

end Register

namespace Word

def startsLabel (c : UInt8) : Bool :=
  c == '.'.toUInt8 || Byte.isLetter c

def isLabel : Text → Bool
  | [] => false
  | c :: rest => startsLabel c && rest.all Byte.isWord

def isPlainNumber : Text → Bool
  | [] => false
  | c :: rest =>
    if c == '-'.toUInt8 || c == '+'.toUInt8 then !rest.isEmpty && rest.all Byte.isDigit
    else (c :: rest).all Byte.isDigit

-- The digits of a number word and their base. `0x` and `0o` in front and `b` and `d` at the end
-- name the base, the front before the end; other words are decimal and hold digits only.
def radix? (word : Text) : Option (Text × Nat) :=
  match Text.dropStart? "0x" word, Text.dropStart? "0o" word,
      Text.dropEnd? 'b'.toUInt8 word, Text.dropEnd? 'd'.toUInt8 word with
  | some body, _, _, _ => some (body, 16)
  | _, some body, _, _ => some (body, 8)
  | _, _, some body, _ => some (body, 2)
  | _, _, _, some body => some (body, 10)
  | _, _, _, _ => if isPlainNumber word then some (word, 10) else none

def number (word : Text) : Except Error Int :=
  match radix? word with
  | none => .error (.notANumber word)
  | some (body, base) =>
    match Numeral.read base body with
    | .ok value => .ok value
    | .error .overflow => .error .operandRange
    | .error .malformed => .error (.notANumber word)

def base? (word : Text) : Option (Register × Text) :=
  Register.all.findSome? fun r => (Text.dropStart? r.name word).map (r, ·)

-- The byte that names an offset and its base register: the offset as five bits in two's complement,
-- above three bits for the register.
def encodeOffset (offset : Int) (base : Register) : UInt8 :=
  UInt8.ofNat ((offset % 32).toNat * 8) + base.id

-- The encoding of a register with a signed offset, such as `SP-3`, or `none` if the word does not
-- start with a register and a sign. The magnitude may have a sign of its own, and its negative is
-- again a signed 64-bit word.
def offset? (word : Text) : Option (Except Error UInt8) :=
  match base? word.upper with
  | some (base, sign :: magnitude) =>
    if sign == '+'.toUInt8 then some (encode base (Numeral.read 10 magnitude))
    else if sign == '-'.toUInt8 then
      some (encode base ((Numeral.read 10 magnitude).map fun n => Numeral.wrap (-n)))
    else none
  | _ => none
where
  encode (base : Register) : Except Numeral.Fault Int → Except Error UInt8
    | .error .overflow => .error .offsetRange
    | .error .malformed => .error (.notANumber word)
    | .ok offset =>
      if -16 ≤ offset ∧ offset ≤ 15 then .ok (encodeOffset offset base) else .error .offsetRange

end Word

end ByteAsm
