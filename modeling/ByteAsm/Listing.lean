import ByteAsm.Program

namespace ByteAsm

def Record.source (r : Record) : Text :=
  match r.words with
  | [] => []
  | [mnemonic] => mnemonic
  | mnemonic :: operands => mnemonic ++ ' '.toUInt8 :: Text.join ", " operands

def Record.description (r : Record) : Text :=
  match r.encoding? with
  | some enc => enc.render
  | none => "data"

def Record.listing (r : Record) : Text :=
  Numeral.hex r.ip ++ Text.ofString "  " ++
    Text.padEnd 9 (Text.join " " (r.bytes.map fun b => Numeral.hex b.toNat)) ++ ' '.toUInt8 ::
    Text.padStart 4 ' ' (Numeral.decimal (Numeral.wrap (r.line + 1))) ++ Text.ofString "  " ++
    Text.padEnd 24 r.source ++ Text.ofString " ; " ++ r.description ++ ['\n'.toUInt8]

def labelListing (entry : Text × Int) : Text :=
  Numeral.hex entry.2 ++ Text.ofString "  " ++ entry.1 ++ ['\n'.toUInt8]

def Program.listing (p : Program) : List Text :=
  p.records.map Record.listing ++ p.labels.sortedByValue.map labelListing

def upTo {α : Type} (limit : Option Nat) (xs : List α) : List α :=
  match limit with
  | some n => xs.take n
  | none => xs

-- What a writer that takes at most `limit` lines has got, and whether it took all lines.
def Program.writeListing (p : Program) (limit : Option Nat) : Text × Bool :=
  ((upTo limit p.listing).flatten, limit.all (p.listing.length ≤ ·))

end ByteAsm
