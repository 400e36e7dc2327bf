import ByteAsm.Expression.Binary64
import ByteAsm.Text

namespace ByteAsm.Expression

-- Functions that every program can name. Calling one of the `other` ones fails.
inductive Builtin
  | abs | bool | chr | int | len | max | min | ord
  | other (name : Text)
deriving DecidableEq

def Builtin.name : Builtin → Text
  | abs => "abs"
  | bool => "bool"
  | chr => "chr"
  | int => "int"
  | len => "len"
  | max => "max"
  | min => "min"
  | ord => "ord"
  | other name => name

inductive Value
  | none
  | bool (b : Bool)
  | int (n : Int)
  | float (x : Float)
  | string (t : Text)
  | tuple (items : List Value)
  | list (place : Nat)
  | dict (place : Nat)
  | builtin (f : Builtin)

namespace Value

def intCode (n : Int) : UInt32 :=
  let low : Int := if -0x80000000 ≤ n ∧ n < 0x80000000 then n else n.natAbs
  12582917 * UInt32.ofNat ((low + 3) % 0x100000000).toNat

def textCode (t : Text) : UInt32 :=
  t.foldl (fun h b => (h ^^^ b.toUInt32) * 16777619) 2166136261

mutual

-- The code of a value that can be a key. Equal keys have equal codes; two keys with different codes
-- are told apart without a comparison.
def code? : Value → Option UInt32
  | none => some 0
  | bool b => some (if b then 1 else 0)
  | int n => some (intCode n)
  | float x => some (((Binary64.truncate? x).map intCode).getD 1618033)
  | string t => some (textCode t)
  | tuple items => codeAll? (82520 + 2 * UInt32.ofNat items.length) 1000003 0x345678 items
  | list _ => Option.none
  | dict _ => Option.none
  | builtin f => some (textCode f.name)

def codeAll? (step factor done : UInt32) : List Value → Option UInt32
  | [] => some done
  | v :: vs =>
    match code? v with
    | some code => codeAll? step (factor + step) (done ^^^ code * factor) vs
    | Option.none => Option.none

end

end Value

structure Entry where
  code  : UInt32
  key   : Value
  value : Value

structure Memory where
  names : List (Text × Value) := []
  lists : Array (List Value) := #[]
  dicts : Array (List Entry) := #[]

abbrev Action := StateT Memory Option

namespace Memory

def listAt (m : Memory) (place : Nat) : List Value :=
  m.lists[place]?.getD []

def dictAt (m : Memory) (place : Nat) : List Entry :=
  m.dicts[place]?.getD []

def setName (s : Text) (v : Value) : Action Unit :=
  modify fun m => { m with names := (s, v) :: m.names }

def setList (place : Nat) (items : List Value) : Action Unit :=
  modify fun m => { m with lists := m.lists.setIfInBounds place items }

def setDict (place : Nat) (entries : List Entry) : Action Unit :=
  modify fun m => { m with dicts := m.dicts.setIfInBounds place entries }

def newList (items : List Value) : Action Value :=
  modifyGet fun m => (.list m.lists.size, { m with lists := m.lists.push items })

def newDict (entries : List Entry) : Action Value :=
  modifyGet fun m => (.dict m.dicts.size, { m with dicts := m.dicts.push entries })

def truth (m : Memory) : Value → Bool
  | .none => false
  | .bool b => b
  | .int n => n != 0
  | .float x => x != 0.0
  | .string t => !t.isEmpty
  | .tuple items => !items.isEmpty
  | .list place => !(m.listAt place).isEmpty
  | .dict place => !(m.dictAt place).isEmpty
  | .builtin _ => true

def items? (m : Memory) : Value → Option (List Value)
  | .tuple items => some items
  | .list place => some (m.listAt place)
  | .dict place => some ((m.dictAt place).map (·.key))
  | _ => none

def named? (m : Memory) : Value → Option (List (Text × Value))
  | .dict place =>
    (m.dictAt place).mapM fun e =>
      match e.key with
      | .string s => some (s, e.value)
      | _ => none
  | _ => none

end Memory

end ByteAsm.Expression
