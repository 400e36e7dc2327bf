import ByteAsm.Expression.Operator
import ByteAsm.Numeral

namespace ByteAsm.Expression

namespace Builtin

-- Functions that have a name but cannot be called.
def others : List Text :=
  ["all", "any", "bytes", "dict", "dir", "enumerate", "fail", "float", "getattr", "hasattr", "hash",
    "list", "print", "range", "repr", "reversed", "sorted", "str", "tuple", "type", "zip"]

def names : List (Text × Value) := [
  ("None", .none), ("True", .bool true), ("False", .bool false),
  ("abs", .builtin .abs), ("bool", .builtin .bool), ("chr", .builtin .chr), ("int", .builtin .int),
  ("len", .builtin .len), ("max", .builtin .max), ("min", .builtin .min), ("ord", .builtin .ord)]

def value? (name : Text) : Option Value :=
  (names.lookup name).or
    (if others.contains name then some (.builtin (.other name)) else none)

def abs? : Value → Option Value
  | .int n => some (.int n.natAbs)
  | .float x => some (.float x.abs)
  | _ => none

-- The text of one character. A code that stands for no character gives the replacement character.
def chr? (v : Value) : Option Value :=
  (Value.int32? v).bind fun n =>
    if 0 ≤ n ∧ n ≤ 0x10FFFF then
      let c := if n.toNat.isValidChar then Char.ofNat n.toNat else Text.replacement
      some (.string (Text.ofChars [c]))
    else none

def ord? : Value → Option Value
  | .string (b :: rest) =>
    let (piece, n) := Text.firstPiece b rest
    if rest.length = n then some (.int piece.toChar.toNat) else none
  | _ => none

def len? (m : Memory) : Value → Option Value
  | .string t => some (.int t.length)
  | v => (m.items? v).map fun items => .int items.length

def extremum? (m : Memory) (key? : Value → Option Value) (ahead : Ordering → Bool) :
    List Value → Option Value
  | [] => none
  | v :: vs => (key? v).bind fun key => go v key vs
where
  go (best bestKey : Value) : List Value → Option Value
    | [] => some best
    | v :: vs =>
      match key? v with
      | none => none
      | some key =>
        match m.orders? key bestKey with
        | none => none
        | some o => if ahead o then go v key vs else go best bestKey vs

def candidates? (m : Memory) : (args : List Value) → Option (List Value)
  | [v] => m.items? v
  | args => some args

def mark? : Text → Option (Nat × Text)
  | zero :: c :: d :: rest =>
    if zero == '0'.toUInt8 then
      let mark := Byte.upper c
      if mark == 'X'.toUInt8 then some (16, d :: rest)
      else if mark == 'O'.toUInt8 then some (8, d :: rest)
      else if mark == 'B'.toUInt8 then some (2, d :: rest)
      else none
    else none
  | _ => none

def digits? (base : Nat) : Text → Option Nat
  | [] => none
  | t => (t.mapM (Numeral.digit? base)).map (Numeral.value base)

-- The magnitude of a numeral. Base 0 stands for the base that its mark names, or else for ten, and
-- then no numeral but zero starts with a zero.
def magnitude? (base : Nat) (t : Text) : Option Nat :=
  match mark? t with
  | some (marked, body) =>
    if base = 0 ∨ base = marked then digits? marked body else digits? base t
  | none =>
    if base = 0 then
      if t.length > 1 ∧ t.head? = some '0'.toUInt8 then
        if t.all (· == '0'.toUInt8) then some 0 else none
      else digits? 10 t
    else digits? base t

def numeral? (base : Nat) : Text → Option Int
  | [] => none
  | c :: rest =>
    if c == '-'.toUInt8 then (magnitude? base rest).map fun n => -(n : Int)
    else if c == '+'.toUInt8 then (magnitude? base rest).map Int.ofNat
    else (magnitude? base (c :: rest)).map Int.ofNat

def int? : (x : Value) → (base : Option Value) → Option Value
  | .string t, base =>
    match base with
    | none => (numeral? 10 t).map .int
    | some b =>
      (Value.int32? b).bind fun n =>
        if n = 0 ∨ 2 ≤ n ∧ n ≤ 36 then (numeral? n.toNat t).map .int else none
  | .int n, none => some (.int n)
  | .bool b, none => some (.int b.toNat)
  | .float x, none => (Binary64.truncate? x).map .int
  | _, _ => none

def byPlace? (m : Memory) : Builtin → (args : List Value) → Option Value
  | .abs, [v] => abs? v
  | .bool, [] => some (.bool false)
  | .bool, [v] => some (.bool (m.truth v))
  | .chr, [v] => chr? v
  | .ord, [v] => ord? v
  | .len, [v] => len? m v
  | .int, [v] => int? v none
  | .int, [v, base] => int? v (some base)
  | .max, args => (candidates? m args).bind (extremum? m some Ordering.isGT)
  | .min, args => (candidates? m args).bind (extremum? m some Ordering.isLT)
  | _, _ => none

def intArguments? (args : List Value) (named : List (Text × Value)) :
    Option (Value × Option Value) :=
  let free := (["x", "base"] : List Text).drop args.length
  if 2 < args.length ∨ named.any (!free.contains ·.1) ∨ free.length < named.length ∨
      ¬ (named.map (·.1)).Nodup then none
  else
    let given := (["x", "base"] : List Text).zip args ++ named
    (given.lookup (Text.ofString "x")).map (·, given.lookup (Text.ofString "base"))

def call? (m : Memory) : Builtin → (args : List Value) → (named : List (Text × Value)) →
    Option Value
  | f, args, [] => byPlace? m f args
  | .max, args, [(s, .builtin f)] => byKey? Ordering.isGT args s f
  | .min, args, [(s, .builtin f)] => byKey? Ordering.isLT args s f
  | .int, args, named => (intArguments? args named).bind fun (x, base) => int? x base
  | _, _, _ => none
where
  byKey? (ahead : Ordering → Bool) (args : List Value) (s : Text) (f : Builtin) : Option Value :=
    if s == Text.ofString "key" then
      (candidates? m args).bind (extremum? m (fun v => byPlace? m f [v]) ahead)
    else none

end Builtin

end ByteAsm.Expression
