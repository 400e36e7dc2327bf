import ByteAsm.Numeral
import ByteAsm.Text.Quoted

namespace ByteAsm

inductive Document
  | number (n : Int)
  | text (t : Text)
  | list (items : List Document)
  | object (fields : List (Text × Document))

namespace Document

def shortEscapes : List (Char × Char) := [
  ('"', '"'), ('\\', '\\'), ('\x08', 'b'), ('\x0c', 'f'), ('\n', 'n'), ('\r', 'r'), ('\t', 't')]

-- Characters that are escaped although a document may hold them as they are.
def guarded : List Char :=
  ['<', '>', '&', Char.ofNat 0x2028, Char.ofNat 0x2029]

def escapedPiece : Text.Piece → Text
  | .stray _ => "\\ufffd"
  | .char c =>
    match shortEscapes.lookup c with
    | some letter => Text.ofChars ['\\', letter]
    | none =>
      if c.toNat < 0x20 || guarded.contains c then Text.ofString "\\u" ++ Text.hexPlaces 4 c.toNat
      else Text.ofChars [c]

def renderText (t : Text) : Text :=
  '"'.toUInt8 :: t.pieces.flatMap escapedPiece ++ ['"'.toUInt8]

def newLine (level : Nat) : Text :=
  '\n'.toUInt8 :: List.replicate (2 * level) ' '.toUInt8

def block (opening closing : Char) (level : Nat) (items : List Text) : Text :=
  if items.isEmpty then Text.ofChars [opening, closing]
  else
    let lines := items.map fun item => newLine (level + 1) ++ item
    opening.toUInt8 :: Text.join [','.toUInt8] lines ++ newLine level ++ [closing.toUInt8]

mutual

def render (level : Nat) : Document → Text
  | number n => Numeral.decimal n
  | text t => renderText t
  | list items => block '[' ']' level (renderAll (level + 1) items)
  | object fields => block '\x7b' '\x7d' level (renderFields (level + 1) fields)

def renderAll (level : Nat) : List Document → List Text
  | [] => []
  | d :: ds => render level d :: renderAll level ds

def renderFields (level : Nat) : List (Text × Document) → List Text
  | [] => []
  | (name, d) :: rest =>
    (renderText name ++ Text.ofString ": " ++ render level d) :: renderFields level rest

end

end Document

end ByteAsm
