
namespace ByteAsm

abbrev Text := List UInt8

namespace Byte

def isBlank (c : UInt8) : Bool :=
  c == ' '.toUInt8 || c == '\t'.toUInt8

def isLetter (c : UInt8) : Bool :=
  ('A'.toUInt8 ≤ c && c ≤ 'Z'.toUInt8) || ('a'.toUInt8 ≤ c && c ≤ 'z'.toUInt8)

def isDigit (c : UInt8) : Bool :=
  '0'.toUInt8 ≤ c && c ≤ '9'.toUInt8

def isWord (c : UInt8) : Bool :=
  isLetter c || isDigit c || c == '_'.toUInt8

def isAscii (c : UInt8) : Bool :=
  c < 128

def upper (c : UInt8) : UInt8 :=
  if 'a'.toUInt8 ≤ c && c ≤ 'z'.toUInt8 then c - 32 else c

end Byte

namespace Text

def ofString (s : String) : Text :=
  s.toList.flatMap String.utf8EncodeChar

instance : Coe String Text where
  coe := ofString

def isAscii (t : Text) : Bool :=
  t.all Byte.isAscii

def dropStart? : (p t : Text) → Option Text
  | [], t => some t
  | _ :: _, [] => none
  | a :: p, b :: t => if a == b then dropStart? p t else none

def dropEnd? (c : UInt8) (t : Text) : Option Text :=
  if t.getLast? == some c then some t.dropLast else none

def cut (c : UInt8) (t : Text) : Text × Option Text :=
  match t.dropWhile (· != c) with
  | [] => (t, none)
  | _ :: rest => (t.takeWhile (· != c), some rest)

def join (sep : Text) : List Text → Text :=
  List.intercalate sep

def firstLine (t : Text) : Text :=
  t.takeWhile (· != '\n'.toUInt8)

end Text

end ByteAsm
