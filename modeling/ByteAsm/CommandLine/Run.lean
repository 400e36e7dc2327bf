import ByteAsm.CommandLine.Document
import ByteAsm.CommandLine.Options
import ByteAsm.Listing
import ByteAsm.Trace

namespace ByteAsm.CommandLine

structure Host (m : Type → Type) where
  standardInput : m Text
  readFile      : Text → m (Except Text Source)
  writeFile     : Text → List UInt8 → m (Except Text Unit)

inductive Message
  | usage (t : Text)
  | info (t : Text)
  | fatal (t : Text)

structure Outcome where
  exit   : Nat := 0
  output : Text := []
  log    : List Message := []

def name : Text :=
  "asm8"

def dash : Text :=
  "-"

structure Note where
  level   : Int
  heading : Nat := 43
  text    : Text

-- The longest line of the log in bytes. What does not fit is cut off.
def lineLimit : Nat := 14999

def logged (heading : Nat) (t : Text) : Text :=
  Text.firstLine (t.take (lineLimit - heading))

namespace Outcome

def write (o : Outcome) (t : Text) : Outcome :=
  { o with output := o.output ++ t }

def report (o : Outcome) (options : Options) (notes : List Note) : Outcome :=
  if options.logAll || options.logBoth || options.threshold ≤ 0 then
    let shown := notes.filter (·.level ≤ options.verbosity)
    { o with log := o.log ++ shown.map fun note => .info (logged note.heading note.text) }
  else o

def fail (o : Outcome) (heading : Nat) (t : Text) : Outcome :=
  { o with exit := 1, log := o.log ++ [.fatal (logged heading t)] }

def failAt (o : Outcome) (heading : Nat) (file reason : Text) : Outcome :=
  o.fail heading (file ++ Text.ofString ": " ++ reason)

end Outcome

def refused : Refusal → Outcome
  | .help => { log := [.usage (Text.ofString "Usage of " ++ name ++ [':'.toUInt8])] }
  | .fault report => { exit := 2, log := [.usage report.firstLine] }

def diagnosticDocument (d : Diagnostic) : Document :=
  let line := d.line.toList.map fun n => (Text.ofString "line", Document.number n)
  .object (("error", .text d.report) :: line)

def programDocument (p : Program) : Document :=
  let named := p.mapping.entries.map fun (ip, line) => (Numeral.decimal ip, line)
  let mapping := Table.ofEntries named
  let table (entries : List (Text × Int)) :=
    Document.object (entries.map fun (t, n) => (t, .number n))
  .object [
    ("code", .list (p.code.map fun b => .number b.toNat)),
    ("mapping", table mapping.sortedByKey),
    ("labels", table p.labels.sortedByKey)]

def documentText (d : Document) : Text :=
  d.render 0 ++ ['\n'.toUInt8]

def labelText (entry : Text × Int) : Text :=
  Text.padEnd 16 entry.1 ++ Text.ofString " 0x" ++ Numeral.hex entry.2 ++ ['\n'.toUInt8]

def printed (options : Options) (p : Program) : Text :=
  (if options.json then documentText (programDocument p) else []) ++
  (if options.listing then p.listing.flatten else []) ++
  (if options.labels then p.labels.sortedByValue.flatMap labelText else [])

def Options.assembler (options : Options) : Assembler :=
  options.defines.foldl (fun asm (name, value) => asm.predefine name value) {}

def progress (asm : Assembler) (source : Source) : List Note :=
  let constant : Text × Text → Note := fun (name, value) =>
    { level := 1, text := Text.ofString "predefine " ++ name ++ '='.toUInt8 :: value }
  asm.predefines.sortedByKey.map constant ++
    (asm.trace source).map fun event => ⟨event.level, event.heading, event.render⟩

def assembled (options : Options) (source : Source) : Outcome × Option Program :=
  let o := ({} : Outcome).report options (progress options.assembler source)
  match options.assembler.assemble source with
  | .error e =>
    if options.json then
      ({ o.write (documentText (diagnosticDocument e.diagnose)) with exit := 1 }, none)
    else (o.failAt 43 options.source e.message, none)
  | .ok p => (o.write (printed options p), some p)

def finished (options : Options) (p : Program) (o : Outcome) : Outcome :=
  let text := options.source ++ Text.ofString ": " ++ Numeral.natural p.code.length ++
    Text.ofString " bytes"
  o.report options [{ level := 1, text }]

def writeCode {m : Type → Type} [Monad m] (host : Host m) (options : Options) (o : Outcome)
    (p : Program) : m Outcome :=
  if options.output.isEmpty then pure (finished options p o)
  else if options.output = dash then pure (finished options p (o.write p.code))
  else do
    match ← host.writeFile options.output p.code with
    | .ok () => pure (finished options p o)
    | .error reason => pure (o.failAt 43 options.output reason)

def readSource {m : Type → Type} [Monad m] (host : Host m) (options : Options) :
    m (Except Text Source) :=
  if options.source = dash then do return .ok { text := ← host.standardInput }
  else host.readFile options.source

def run {m : Type → Type} [Monad m] (host : Host m) (args : List Text) : m Outcome :=
  match Options.read {} args with
  | .error refusal => pure (refused refusal)
  | .ok (_, arg :: rest) =>
    pure (({} : Outcome).failAt 42 name
      (Text.ofString "Unknown arguments: [" ++ Text.join " " (arg :: rest) ++ [']'.toUInt8]))
  | .ok (options, []) => do
    match ← readSource host options with
    | .error reason => pure (({} : Outcome).failAt 42 options.source reason)
    | .ok source =>
      match assembled options source with
      | (o, none) => pure o
      | (o, some p) => writeCode host options o p

end ByteAsm.CommandLine
