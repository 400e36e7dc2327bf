import ByteAsm.Text.Utf8

namespace ByteAsm.Text

def isWhiteSpace (c : Char) : Bool :=
  let n := c.toNat
  (0x09 ≤ n && n ≤ 0x0D) || n == 0x20 || n == 0x85 || n == 0xA0 || n == 0x1680 ||
    (0x2000 ≤ n && n ≤ 0x200A) || n == 0x2028 || n == 0x2029 || n == 0x202F || n == 0x205F ||
    n == 0x3000

def trimStart (t : Text) : Text :=
  go 0 t
where
  -- `skip` counts the bytes ahead that belong to the piece read last.
  go : (skip : Nat) → Text → Text
    | _, [] => []
    | skip + 1, _ :: rest => go skip rest
    | 0, b :: rest =>
      if isWhiteSpace (firstPiece b rest).1.toChar then go (firstPiece b rest).2 rest else b :: rest

end ByteAsm.Text
