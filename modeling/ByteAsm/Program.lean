import ByteAsm.Encoding
import ByteAsm.Table

namespace ByteAsm

structure Record where
  line  : Int
  ip    : Int
  words : List Text
  bytes : List UInt8
  data  : Bool
deriving DecidableEq

structure Program where
  code    : List UInt8
  -- The source line of each instruction, by its offset.
  mapping : Table Int Int
  labels  : Table Text Int
  records : List Record
deriving DecidableEq

namespace Record

def stop (r : Record) : Int :=
  Numeral.wrap (r.ip + r.bytes.length)

def encoding? (r : Record) : Option Encoding :=
  if r.data then none else r.bytes.head?.bind InstructionSet.lookup?

end Record

namespace Program

def debug? (p : Program) (ip : Int) : Option (Record × Int) :=
  (p.records.find? fun r => r.ip ≤ ip ∧ ip < r.stop).map fun r => (r, ip - r.ip)

def instructions (p : Program) : List Record :=
  p.records.filter fun r => !r.data

def lineOf? (p : Program) (ip : Int) : Option Int :=
  p.mapping.find? ip

end Program

end ByteAsm
