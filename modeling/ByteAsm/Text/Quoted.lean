import ByteAsm.Text.Printable
import ByteAsm.Text.Utf8

namespace ByteAsm.Text

def hexPlaces (n value : Nat) : Text :=
  padStart n '0' ((Nat.toDigits 16 value).map Char.toUInt8)

def shortEscapes : List (Char × Char) := [
  ('"', '"'), ('\\', '\\'), ('\x07', 'a'), ('\x08', 'b'), ('\x0c', 'f'), ('\n', 'n'), ('\r', 'r'),
  ('\t', 't'), ('\x0b', 'v')]

def quotedChar (c : Char) : Text :=
  match shortEscapes.lookup c with
  | some letter => ofChars ['\\', letter]
  | none =>
    if isPrintable c then ofChars [c]
    else if c.toNat < 0x80 then ofString "\\x" ++ hexPlaces 2 c.toNat
    else if c.toNat < 0x10000 then ofString "\\u" ++ hexPlaces 4 c.toNat
    else ofString "\\U" ++ hexPlaces 8 c.toNat

def quotedPiece : Piece → Text
  | .char c => quotedChar c
  | .stray b => ofString "\\x" ++ hexPlaces 2 b.toNat

def quoted (t : Text) : Text :=
  '"'.toUInt8 :: t.pieces.flatMap quotedPiece ++ ['"'.toUInt8]

end ByteAsm.Text
