import ByteAsm.Text.Utf8

namespace ByteAsm.Numeral

def wrap (n : Int) : Int :=
  n.bmod 0x10000000000000000

def natural (n : Nat) : Text :=
  (Nat.toDigits 10 n).map Char.toUInt8

def signed (digits : Nat → Text) (n : Int) : Text :=
  if n < 0 then '-'.toUInt8 :: digits n.natAbs else digits n.natAbs

def decimal (n : Int) : Text :=
  signed natural n

def grouped (n : Int) : Text :=
  signed (fun m => (go (natural m).reverse).reverse) n
where
  go : Text → Text
    | a :: b :: c :: d :: rest => a :: b :: c :: ','.toUInt8 :: go (d :: rest)
    | t => t

def hexNatural (n : Nat) : Text :=
  (Nat.toDigits 16 n).map fun c => Byte.upper c.toUInt8

-- Upper-case hexadecimal, zeros after the sign up to two places in all.
def hex (n : Int) : Text :=
  if n < 0 then signed hexNatural n else Text.padStart 2 '0' (hexNatural n.natAbs)

inductive Fault
  | malformed
  | overflow
deriving DecidableEq

def digit? (base : Nat) (c : UInt8) : Option Nat :=
  let value? :=
    if Byte.isDigit c then some (c.toNat - '0'.toNat)
    else if Byte.isLetter c then some ((Byte.upper c).toNat - 'A'.toNat + 10)
    else none
  value?.filter (· < base)

-- The value of digits, of which halves are read apart: this takes many digits faster than one after
-- the other.
def value (base : Nat) (ds : List Nat) : Nat :=
  go ds.length.log2 ds
where
  go : (fuel : Nat) → List Nat → Nat
    | 0, ds => ds.foldl (· * base + ·) 0
    | fuel + 1, ds =>
      let (high, low) := ds.splitAt (ds.length / 2)
      go fuel high * Nat.pow base low.length + go fuel low

-- Reads digits after those that gave `value`. A value beyond 64 bits is an overflow at once, before
-- any byte behind it is looked at.
def digits (base : Nat) : (value : Nat) → Text → Except Fault Nat
  | value, [] => .ok value
  | value, c :: rest =>
    match digit? base c with
    | none => .error .malformed
    | some d =>
      if value * base + d < 0x10000000000000000 then digits base (value * base + d) rest
      else .error .overflow

def unsigned (base : Nat) (t : Text) : Except Fault Nat :=
  if t.isEmpty then .error .malformed else digits base 0 t

def readSigned (magnitude : Text → Except Fault Nat) (t : Text) : Except Fault Int :=
  match t with
  | [] => .error .malformed
  | c :: rest =>
    if c == '-'.toUInt8 then negative (magnitude rest)
    else if c == '+'.toUInt8 then positive (magnitude rest)
    else positive (magnitude t)
where
  negative : Except Fault Nat → Except Fault Int
    | .error e => .error e
    | .ok n => if n ≤ 0x8000000000000000 then .ok (-n) else .error .overflow
  positive : Except Fault Nat → Except Fault Int
    | .error e => .error e
    | .ok n => if n < 0x8000000000000000 then .ok n else .error .overflow

def read (base : Nat) : Text → Except Fault Int :=
  readSigned (unsigned base)

-- The base that a mark in front of digits names, and what follows the mark. A zero alone marks base
-- eight.
def mark : Text → Nat × Text
  | zero :: rest =>
    if zero == '0'.toUInt8 then
      match rest with
      | c :: d :: ds =>
        if Byte.upper c == 'X'.toUInt8 then (16, d :: ds)
        else if Byte.upper c == 'O'.toUInt8 then (8, d :: ds)
        else if Byte.upper c == 'B'.toUInt8 then (2, d :: ds)
        else (8, rest)
      | _ => (8, rest)
    else (10, zero :: rest)
  | [] => (10, [])

def isSpaced : Text → Bool
  | a :: b :: rest => !(a == '_'.toUInt8 && b == '_'.toUInt8) && isSpaced (b :: rest)
  | [a] => a != '_'.toUInt8
  | [] => true

def readMarked : Text → Except Fault Int :=
  readSigned fun t =>
    if t.isEmpty then .error .malformed
    else
      let (base, ds) := mark t
      match digits base 0 (ds.filter (· != '_'.toUInt8)) with
      | .ok n => if isSpaced t && t.head? != some '_'.toUInt8 then .ok n else .error .malformed
      | fault => fault

end ByteAsm.Numeral
