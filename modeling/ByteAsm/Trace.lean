import ByteAsm.Draft

namespace ByteAsm

inductive Event
  | firstPass
  | line (line : Nat) (text : Text)
  | instruction (line : Nat) (enc : Encoding) (ops : List Operand)
  | secondPass (references : Nat)
  | link (label : Text) (ip : Nat) (offset : Int)
  | finished (bytes labels : Nat)

namespace Event

def level : Event → Int
  | firstPass | secondPass _ | finished _ _ => 1
  | line _ _ | instruction _ _ _ | link _ _ _ => 2

-- The bytes before an event on its line of a log: the severity, the time, the process and the place
-- in the program.
def heading : Event → Nat
  | firstPass => 47
  | _ => 48

def render : Event → Text
  | firstPass => "asm8: pass 1"
  | line n text => Numeral.natural n ++ Text.ofString ": " ++ text
  | instruction n enc ops =>
    Numeral.natural n ++ Text.ofString ": " ++ enc.render ++ Text.ofString " [" ++
      Text.join " " (ops.map Operand.render) ++ [']'.toUInt8]
  | secondPass n =>
    Text.ofString "asm8: pass 2, " ++ Numeral.natural n ++ Text.ofString " label references"
  | link label ip offset =>
    Text.ofString "asm8: link " ++ label ++ Text.ofString " at " ++ Numeral.natural ip ++
      Text.ofString " to " ++ Numeral.decimal offset
  | finished bytes labels =>
    Text.ofString "asm8: " ++ Numeral.natural bytes ++ Text.ofString " bytes, " ++
      Numeral.natural labels ++ Text.ofString " labels"

end Event

namespace Draft

def statement? (d : Draft) (asm : Assembler) (line : Nat) (text : Text) : Option Statement := do
  let expanded ← (Expansion.expand (d.value? asm line) text).toOption
  let parts ← (Line.read expanded).toOption
  (← parts.command).statement.toOption

def instructionEvents (d : Draft) (asm : Assembler) (line : Nat) (text : Text) : List Event :=
  match d.statement? asm line text with
  | some (.instruction enc ops) => [.instruction line enc ops]
  | _ => []

-- The events of the first pass in reverse order, behind those in `done`.
def lineEvents (asm : Assembler) : (line : Nat) → (done : List Event) → List Text → Draft →
    List Event
  | _, done, [], _ => done
  | line, done, raw :: rest, d =>
    if Source.lineLimit ≤ raw.length then done
    else
      let text := Source.content raw
      match addLine asm line text d with
      | .error _ => .line line text :: done
      | .ok next =>
        let events := .line line text :: d.instructionEvents asm line text
        lineEvents asm (line + 1) (events.reverse ++ done) rest next

def linkEvents (labels : Table Text Int) : List Relocation → List Event
  | [] => []
  | r :: rest =>
    match resolve labels r.label, labels.find? r.label with
    | .ok _, some offset => .link r.label r.ip offset :: linkEvents labels rest
    | _, _ => []

end Draft

def Assembler.trace (asm : Assembler) (source : Source) : List Event :=
  .firstPass :: (Draft.lineEvents asm 0 [] lines {}).reverse ++
    match Draft.addLines asm 0 lines {}, source.failure with
    | .ok d, none =>
      .secondPass d.relocations.size :: Draft.linkEvents d.labels d.relocations.toList ++
        match d.link with
        | .ok p => [.finished p.code.length p.labels.size]
        | .error _ => []
    | _, _ => []
where
  lines := Source.lines source.text

end ByteAsm
