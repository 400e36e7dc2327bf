
namespace ByteAsm.Binary64

-- A finite number as `mantissa * 2 ^ exponent`, negated if `negative`.
structure Parts where
  negative : Bool
  mantissa : Nat
  exponent : Int
deriving DecidableEq

def parts? (x : Float) : Option Parts :=
  let bits := x.toBits.toNat
  let biased : Nat := (bits >>> 52) % 2048
  let fraction : Nat := bits % (1 <<< 52)
  if biased = 2047 then none
  else if biased = 0 then some ⟨1 <<< 63 ≤ bits, fraction, -1074⟩
  else some ⟨1 <<< 63 ≤ bits, fraction + (1 <<< 52), (biased : Int) - 1075⟩

-- The number nearest to `num / den`. Among two of them it is the one with an even mantissa, and
-- beyond the largest finite number it is infinite.
def ofRatio (num den : Nat) : Float :=
  if num = 0 ∨ den = 0 then 0.0
  else
    let lowest := max ((num.log2 : Int) - den.log2 - 53) (-1074)
    let exponent := if quotient lowest < 1 <<< 53 then lowest else lowest + 1
    let rest := numerator exponent % denominator exponent
    let up := denominator exponent < 2 * rest ∨
      denominator exponent = 2 * rest ∧ quotient exponent % 2 = 1
    let bits := ((exponent + 1074).toNat <<< 52) + quotient exponent + if up then 1 else 0
    Float.ofBits (UInt64.ofNat (min bits (2047 <<< 52)))
where
  numerator (e : Int) : Nat := num <<< (-e).toNat
  denominator (e : Int) : Nat := den <<< e.toNat
  quotient (e : Int) : Nat := numerator e / denominator e

def ofInt? (n : Int) : Option Float :=
  let x := ofRatio n.natAbs 1
  if x.isInf then none else some (if n < 0 then -x else x)

def ofDecimal? (mantissa : Nat) (exponent : Int) : Option Float :=
  if mantissa = 0 then some 0.0
  else if 400 < exponent then none
  else if exponent < -(400 + mantissa.log2) then some 0.0
  else
    let x := ofRatio (mantissa * Nat.pow 10 exponent.toNat) (Nat.pow 10 (-exponent).toNat)
    if x.isInf then none else some x

def truncate? (x : Float) : Option Int :=
  (parts? x).map fun p =>
    let magnitude : Nat := (p.mantissa <<< p.exponent.toNat) >>> (-p.exponent).toNat
    if p.negative then -(magnitude : Int) else magnitude

-- Compares an integer with a number. Every number that is not one is above all integers.
def compareInt (n : Int) (x : Float) : Ordering :=
  match parts? x with
  | some p =>
    let magnitude : Nat := p.mantissa <<< p.exponent.toNat
    compare (n * (1 <<< (-p.exponent).toNat : Nat)) (if p.negative then -magnitude else magnitude)
  | none => if x < 0.0 then .gt else .lt

-- Compares two numbers. What is not a number equals itself and is above all others.
def order (x y : Float) : Ordering :=
  if x < y then .lt
  else if y < x then .gt
  else if x == y then .eq
  else if x.isNaN then if y.isNaN then .eq else .gt
  else .lt

def remainder (x y : Float) : Float :=
  match parts? x, parts? y with
  | some p, some q =>
    if q.mantissa = 0 then 0.0 / 0.0
    else
      let e := min p.exponent q.exponent
      let r := (p.mantissa <<< (p.exponent - e).toNat) % (q.mantissa <<< (q.exponent - e).toNat)
      let z := ofRatio (r <<< e.toNat) (1 <<< (-e).toNat)
      if p.negative then -z else z
  | some _, none => if y.isNaN then y else x
  | none, _ => 0.0 / 0.0

def modulo (x y : Float) : Float :=
  let z := remainder x y
  if (x < 0.0) != (y < 0.0) && z != 0.0 then z + y else z

end ByteAsm.Binary64
