import ByteAsm.Text

namespace ByteAsm

-- Why a source could not be read to its end. A line that is too long for the reader may be reported
-- in words of the reader's own.
inductive Source.Failure
  | fault (report : Text)
  | tooLong (report : Option Text)
deriving DecidableEq

structure Source where
  text    : Text
  failure : Option Source.Failure := none
deriving DecidableEq

namespace Source

-- A line has fewer bytes than this, its line feed not counted.
def lineLimit : Nat := 1048576

-- The lines without their line feeds. Nothing behind the last line feed is no line.
def lines (t : Text) : List Text :=
  go [] [] t
where
  go : (line : Text) → (done : List Text) → Text → List Text
    | [], done, [] => done.reverse
    | c :: line, done, [] => ((c :: line).reverse :: done).reverse
    | line, done, c :: rest =>
      if c == '\n'.toUInt8 then go [] (line.reverse :: done) rest else go (c :: line) done rest

def content (line : Text) : Text :=
  (Text.dropEnd? '\r'.toUInt8 line).getD line

end Source

end ByteAsm
