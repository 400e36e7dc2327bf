import ByteAsm.Text

namespace ByteAsm.Text

def replacement : Char :=
  Char.ofNat 0xFFFD

def isContinuation (c : UInt8) : Bool :=
  0x80 ≤ c && c < 0xC0

def continuation : (n : Nat) → (value : Nat) → Text → Option Nat
  | 0, value, _ => some value
  | _ + 1, _, [] => none
  | n + 1, value, c :: rest =>
    if isContinuation c then continuation n (value * 64 + (c.toNat - 0x80)) rest else none

-- A piece of text: a character, or a byte outside every well-formed sequence.
inductive Piece
  | char (c : Char)
  | stray (b : UInt8)
deriving DecidableEq

def Piece.toChar : Piece → Char
  | char c => c
  | stray _ => replacement

-- The first piece of the text `b :: rest`, and how many bytes of `rest` belong to it. A sequence is
-- well formed if it is the shortest for a Unicode scalar value.
def firstPiece (b : UInt8) (rest : Text) : Piece × Nat :=
  let lead := b.toNat
  if lead < 0x80 then (.char (Char.ofNat lead), 0)
  else if lead < 0xC0 then (.stray b, 0)
  else if lead < 0xE0 then sequence 1 (lead - 0xC0) 0x80
  else if lead < 0xF0 then sequence 2 (lead - 0xE0) 0x800
  else sequence 3 (lead - 0xF0) 0x10000
where
  sequence (n start least : Nat) : Piece × Nat :=
    match continuation n start rest with
    | some value =>
      if least ≤ value ∧ value.isValidChar then (.char (Char.ofNat value), n) else (.stray b, 0)
    | none => (.stray b, 0)

def pieces (t : Text) : List Piece :=
  go 0 [] t
where
  -- `skip` counts the bytes ahead that belong to the piece read last.
  go : (skip : Nat) → (done : List Piece) → Text → List Piece
    | _, done, [] => done.reverse
    | skip + 1, done, _ :: rest => go skip done rest
    | 0, done, b :: rest => go (firstPiece b rest).2 ((firstPiece b rest).1 :: done) rest

def chars (t : Text) : List Char :=
  t.pieces.map Piece.toChar

def ofChars (cs : List Char) : Text :=
  cs.flatMap String.utf8EncodeChar

def width (t : Text) : Nat :=
  t.chars.length

def codeUnits (c : Char) : List Nat :=
  if c.toNat < 0x10000 then [c.toNat]
  else [0xD800 + (c.toNat - 0x10000) / 0x400, 0xDC00 + (c.toNat - 0x10000) % 0x400]

def units (t : Text) : List Nat :=
  t.chars.flatMap codeUnits

def padEnd (n : Nat) (t : Text) : Text :=
  t ++ List.replicate (n - t.width) ' '.toUInt8

def padStart (n : Nat) (c : Char) (t : Text) : Text :=
  List.replicate (n - t.width) c.toUInt8 ++ t

end ByteAsm.Text
