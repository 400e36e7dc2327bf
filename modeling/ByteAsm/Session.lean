import ByteAsm.Draft
import ByteAsm.Listing

namespace ByteAsm

structure Session where
  assembler : Assembler := {}
  program   : Option Program := none

namespace Session

inductive Query
  | debug (ip : Int)
  | lineOf (ip : Int)
  | binary
  | instructions (limit : Option Nat)
  | listing (limit : Option Nat)

inductive Request
  | predefine (name value : Text)
  | predefines (limit : Option Nat)
  | assemble (source : Source)
  | query (q : Query)

inductive Reply
  | done
  | predefines (entries : List (Text × Text))
  | assembled (outcome : Except Error Program)
  | noProgram
  | debug (found : Option (Record × Int))
  | lineOf (line : Option Int)
  | binary (code : List UInt8)
  | instructions (records : List Record)
  | listing (written : Text) (complete : Bool)

def Query.answer (p : Program) : Query → Reply
  | debug ip => .debug (p.debug? ip)
  | lineOf ip => .lineOf (p.lineOf? ip)
  | binary => .binary p.code
  | instructions limit => .instructions (upTo limit p.instructions)
  | listing limit => .listing (p.writeListing limit).1 (p.writeListing limit).2

-- Answers a request. A source that does not assemble leaves no program.
def step (s : Session) : Request → Session × Reply
  | .predefine name value => ({ s with assembler := s.assembler.predefine name value }, .done)
  | .predefines limit => (s, .predefines (upTo limit s.assembler.predefines.sortedByKey))
  | .assemble source =>
    let outcome := s.assembler.assemble source
    ({ s with program := outcome.toOption }, .assembled outcome)
  | .query q =>
    match s.program with
    | none => (s, .noProgram)
    | some p => (s, q.answer p)

def run : Session → List Request → List Reply
  | _, [] => []
  | s, r :: rest => (s.step r).2 :: run (s.step r).1 rest

end Session

end ByteAsm
