import ByteAsm.Expansion
import ByteAsm.Expression.Evaluate
import ByteAsm.Program
import ByteAsm.Source
import ByteAsm.Statement

namespace ByteAsm

-- A place in the code that waits for the offset of a label.
structure Relocation where
  ip    : Nat
  label : Text
deriving DecidableEq

structure Extent where
  line  : Nat
  ip    : Nat
  size  : Nat
  words : List Text
  data  : Bool
deriving DecidableEq

structure Draft where
  code        : Array UInt8 := #[]
  relocations : Array Relocation := #[]
  mapping     : Table Int Int := ∅
  labels      : Table Text Int := ∅
  -- Each label under its spelling in upper case.
  normalized  : Table Text Text := ∅
  extents     : Array Extent := #[]

-- What is known before a source is read: constants for its expressions, as number words, and what
-- an expression is worth where names have given values.
structure Assembler where
  predefines : Table Text Text := ∅
  evaluator  : (Text → Option Int) → Text → Option Int := Expression.value?

def Assembler.predefine (asm : Assembler) (name value : Text) : Assembler :=
  { asm with predefines := asm.predefines.insert name value }

-- The value of a predefined constant. A constant whose value is no number has none.
def Assembler.constant? (asm : Assembler) (name : Text) : Option Int :=
  (asm.predefines.find? name).bind fun value => (Word.number value).toOption

namespace Draft

-- The names that expressions on a line may use: labels defined before, unless they start with a
-- dot, then predefined constants, then the number of the line.
def scope (d : Draft) (asm : Assembler) (line : Nat) (name : Text) : Option Int :=
  (if name.head? = some '.'.toUInt8 then none else d.labels.find? name)
    |>.or (asm.constant? name)
    |>.or (if name = Text.ofString "LINENO" then some line else none)

def value? (d : Draft) (asm : Assembler) (line : Nat) : (body : Text) → Option Int :=
  asm.evaluator (d.scope asm line)

def reserved : List Text :=
  ["A", "B", "C", "D"]

-- Binds a label to the end of the code so far. Two labels differ in more than case.
def define (d : Draft) (label : Text) : Except Error Draft :=
  if (d.normalized.find? label.upper).isSome then .error (.duplicateLabel label)
  else if reserved.contains label.upper then .error (.reservedLabel label.upper)
  else .ok { d with
    normalized := d.normalized.insert label.upper label
    labels     := d.labels.insert label d.code.size }

def emit (d : Draft) : Slot → Draft
  | .byte b => { d with code := d.code.push b }
  | .label name =>
    let relocation : Relocation := ⟨d.code.size, name⟩
    { d with
      code        := d.code.push 0
      relocations := d.relocations.push relocation }

def place (d : Draft) (line : Nat) (words : List Text) (s : Statement) : Draft :=
  let extent : Extent := ⟨line, d.code.size, s.slots.length, words, s.isData⟩
  s.slots.foldl emit { d with
    mapping := if s.isData then d.mapping else d.mapping.insert d.code.size line
    extents := d.extents.push extent }

def defineAny (d : Draft) : Option Text → Except Error Draft
  | none => .ok d
  | some label => d.define label

def placeAny (d : Draft) (line : Nat) : Option Command → Except Error Draft
  | none => .ok d
  | some c => c.statement.map (d.place line c.words)

def addLine (asm : Assembler) (line : Nat) (text : Text) (d : Draft) : Except Error Draft := do
  let expanded ← Expansion.expand (d.value? asm line) text
  let parts ← Line.read expanded
  let d ← d.defineAny parts.label
  d.placeAny line parts.command

-- Adds source lines, the first of which has the number `line`. The first error ends the pass.
def addLines (asm : Assembler) : (line : Nat) → List Text → Draft → Except Error Draft
  | _, [], d => .ok d
  | line, raw :: rest, d =>
    if Source.lineLimit ≤ raw.length then .error (.onLine line [] .lineTooLong)
    else match addLine asm line (Source.content raw) d with
      | .ok d => addLines asm (line + 1) rest d
      | .error e => .error (.onLine line (Source.content raw) e)

def resolve (labels : Table Text Int) (label : Text) : Except Error UInt8 :=
  match labels.find? label with
  | none => .error (.undefinedLabel label)
  | some ip => if ip ≤ 255 then .ok (UInt8.ofNat ip.toNat) else .error (.labelRange label)

def patch (labels : Table Text Int) : List Relocation → Array UInt8 → Except Error (Array UInt8)
  | [], code => .ok code
  | r :: rest, code =>
    match resolve labels r.label with
    | .ok b => patch labels rest (code.setIfInBounds r.ip b)
    | .error e => .error e

def record (code : Array UInt8) (e : Extent) : Record where
  line  := e.line
  ip    := e.ip
  words := e.words
  bytes := (code.extract e.ip (e.ip + e.size)).toList
  data  := e.data

def link (d : Draft) : Except Error Program :=
  (patch d.labels d.relocations.toList d.code).map fun code =>
    { code    := code.toList
      mapping := d.mapping
      labels  := d.labels
      records := d.extents.toList.map (record code) }

end Draft

-- A line that is too long to be read is the one behind the `line` lines before it.
def Source.Failure.error (line : Nat) : Source.Failure → Error
  | fault report => .external report
  | tooLong report => .onLine line [] (report.elim .lineTooLong .external)

-- Assembles a source. If it could not be read to its end, errors on the lines before come first.
def Assembler.assemble (asm : Assembler) (source : Source) : Except Error Program :=
  match Draft.addLines asm 0 (Source.lines source.text) {} with
  | .error e => .error e
  | .ok d =>
    match source.failure with
    | some failure => .error (failure.error (Source.lines source.text).length)
    | none => d.link

end ByteAsm
