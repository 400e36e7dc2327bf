import ByteAsm.Expression.Order
import ByteAsm.Expression.Term

namespace ByteAsm.Expression

namespace Value

def int32? : Value → Option Int
  | int n => if -0x80000000 ≤ n ∧ n < 0x80000000 then some n else Option.none
  | _ => Option.none

def float? : Value → Option Float
  | int n => Binary64.ofInt? n
  | float x => some x
  | _ => Option.none

def arithmetic? (onInts : Int → Int → Option Int) (onFloats : Float → Float → Option Float) :
    (x y : Value) → Option Value
  | int m, int n => (onInts m n).map int
  | x, y =>
    match float? x, float? y with
    | some a, some b => (onFloats a b).map float
    | _, _ => Option.none

-- An operation on integers as infinite sequences of bits.
def bitwise (f : Nat → Nat → Nat) (m n : Int) : Int :=
  let width := max m.natAbs.log2 n.natAbs.log2 + 2
  let size : Nat := 1 <<< width
  Int.bmod (f (m % size).toNat (n % size).toNat) size

def bits? (f : Nat → Nat → Nat) : (x y : Value) → Option Value
  | int m, int n => some (int (bitwise f m n))
  | _, _ => Option.none

def shift? (f : Int → Nat → Int) (limit : Nat) (x y : Value) : Option Value :=
  match x, int32? y with
  | int m, some n => if 0 ≤ n ∧ n < limit then some (int (f m n.toNat)) else Option.none
  | _, _ => Option.none

def divide (f : Float → Float → Float) (a b : Float) : Option Float :=
  if b == 0.0 then Option.none else some (f a b)

def div? (x y : Value) : Option Value :=
  match float? x, float? y with
  | some a, some b => (divide (· / ·) a b).map float
  | _, _ => Option.none

def floorDiv? : (x y : Value) → Option Value :=
  arithmetic? (fun m n => if n = 0 then Option.none else some (m.fdiv n))
    (divide fun a b => (a / b).floor)

def mod? : (x y : Value) → Option Value :=
  arithmetic? (fun m n => if n = 0 then Option.none else some (m.fmod n)) (divide Binary64.modulo)

def unary? (m : Memory) : UnaryOp → Value → Option Value
  | .not, x => some (bool !m.truth x)
  | .plus, int n => some (int n)
  | .plus, float x => some (float x)
  | .minus, int n => some (int (-n))
  | .minus, float x => some (float (-x))
  | .invert, int n => some (int (-n - 1))
  | _, _ => Option.none

-- Copies of a sequence, one after the other. There are less than 2³⁰ items in all.
def repeat? {α : Type} (xs : List α) (n : Int) : Option (List α) :=
  if xs.isEmpty then some []
  else if n < -0x80000000 ∨ 0x80000000 ≤ n then Option.none
  else if n < 1 then some []
  else if 0x40000000 ≤ xs.length * n.toNat then Option.none
  else some (List.replicate n.toNat xs).flatten

def place? (length : Nat) (i : Value) : Option Nat :=
  (int32? i).bind fun i =>
    let place := if i < 0 then i + length else i
    if 0 ≤ place ∧ place < length then some place.toNat else Option.none

-- A bound of a slice. One that is left out is `absent`, and one below zero counts from the end.
def bound? (length : Nat) (absent : Int) : Value → Option Int
  | none => some absent
  | i => (int32? i).map fun i => if i < 0 then i + length else i

def step? : Value → Option Int
  | none => some 1
  | i => (int32? i).bind fun n => if n = 0 then Option.none else some n

def slice? {α : Type} (xs : List α) (low high step : Value) : Option (List α) := do
  let n : Int := xs.length
  let step ← step? step
  if 0 < step then
    let start := (max 0 (min n (← bound? xs.length 0 low))).toNat
    let stop := (max 0 (min n (← bound? xs.length n high))).toNat
    return each step.toNat 0 ((xs.take stop).drop start)
  else
    let start := min (n - 1) (← bound? xs.length (n - 1) low)
    let stop := max (-1) (← bound? xs.length (-1) high)
    return each step.natAbs 0 ((xs.take (start + 1).toNat).drop (stop + 1).toNat).reverse
where
  -- Skips `skip` items before it takes the next one.
  each (step : Nat) : (skip : Nat) → List α → List α
    | _, [] => []
    | 0, x :: rest => x :: each step (step - 1) rest
    | skip + 1, _ :: rest => each step skip rest

def isPart (part : Text) : Text → Bool
  | [] => part.isEmpty
  | c :: rest => part.isPrefixOf (c :: rest) || isPart part rest

def isAmong? (eq : Value → Value → Option Bool) (x : Value) : List Value → Option Bool
  | [] => some false
  | v :: vs =>
    match eq v x with
    | some false => isAmong? eq x vs
    | result => result

def isIn? (m : Memory) (x y : Value) : Option Bool :=
  match x, y with
  | x, list place => isAmong? m.equals? x (m.listAt place)
  | x, tuple items => isAmong? m.equals? x items
  | x, dict place => some ((m.get? (m.dictAt place) x).getD Option.none).isSome
  | string s, string t => some (isPart s t)
  | _, _ => Option.none

def add (x y : Value) : Action Value := do
  match x, y with
  | string s, string t => return string (s ++ t)
  | tuple xs, tuple ys => return tuple (xs ++ ys)
  | list p, list q => Memory.newList ((← get).listAt p ++ (← get).listAt q)
  | x, y => arithmetic? (fun m n => some (m + n)) (fun a b => some (a + b)) x y

def mul (x y : Value) : Action Value := do
  match x, y with
  | int n, string t | string t, int n => return string (← repeat? t n)
  | int n, tuple xs | tuple xs, int n => return tuple (← repeat? xs n)
  | int n, list p | list p, int n => Memory.newList (← repeat? ((← get).listAt p) n)
  | x, y => arithmetic? (fun m n => some (m * n)) (fun a b => some (a * b)) x y

def union? (m : Memory) (es fs : List Entry) : Option (List Entry) :=
  fs.foldlM (fun es f => m.insert? es f.key f.value) es

def bitOr (x y : Value) : Action Value := do
  match x, y with
  | dict p, dict q =>
    let m ← get
    Memory.newDict (← union? m (m.dictAt p) (m.dictAt q))
  | x, y => bits? (· ||| ·) x y

def ordered? (m : Memory) (holds : Ordering → Bool) (x y : Value) : Option Value :=
  (m.orders? x y).map fun o => bool (holds o)

def binary (o : BinaryOp) (x y : Value) : Action Value := do
  let m ← get
  match o with
  | .or => return if m.truth x then x else y
  | .and => return if m.truth x then y else x
  | .eq => return bool (← m.equals? x y)
  | .ne => return bool !(← m.equals? x y)
  | .lt => ordered? m Ordering.isLT x y
  | .gt => ordered? m Ordering.isGT x y
  | .le => ordered? m Ordering.isLE x y
  | .ge => ordered? m Ordering.isGE x y
  | .isIn => return bool (← isIn? m x y)
  | .notIn => return bool !(← isIn? m x y)
  | .bitOr => bitOr x y
  | .bitXor => bits? (· ^^^ ·) x y
  | .bitAnd => bits? (· &&& ·) x y
  | .shiftLeft => shift? (fun m n => m * (1 <<< n : Nat)) 512 x y
  | .shiftRight => shift? Int.shiftRight 0x80000000 x y
  | .add => add x y
  | .sub => arithmetic? (fun m n => some (m - n)) (fun a b => some (a - b)) x y
  | .mul => mul x y
  | .div => div? x y
  | .floorDiv => floorDiv? x y
  | .mod => mod? x y

-- The value of an operator that stands before an equals sign. A list on its left takes in all items
-- on its right, and a dictionary all entries, instead of giving way to a new one.
def update (o : BinaryOp) (x y : Value) : Action Value := do
  let m ← get
  match o, x, y with
  | .bitOr, dict p, dict q =>
    Memory.setDict p (← union? m (m.dictAt p) (m.dictAt q))
    return x
  | .add, list p, y =>
    match m.items? y with
    | some ys =>
      Memory.setList p (m.listAt p ++ ys)
      return x
    | Option.none => failure
  | o, x, y => binary o x y

def index? (m : Memory) : (x i : Value) → Option Value
  | dict place, i => (m.get? (m.dictAt place) i).bind id
  | list place, i => do (m.listAt place)[← place? (m.listAt place).length i]?
  | tuple items, i => do items[← place? items.length i]?
  | string t, i => do return string [← t[← place? t.length i]?]
  | _, _ => Option.none

def slice (x low high step : Value) : Action Value := do
  match x with
  | list place => Memory.newList (← slice? ((← get).listAt place) low high step)
  | tuple items => return tuple (← slice? items low high step)
  | string t => return string (← slice? t low high step)
  | _ => failure

def setIndex (x i v : Value) : Action Unit := do
  let m ← get
  match x with
  | list place =>
    Memory.setList place ((m.listAt place).set (← place? (m.listAt place).length i) v)
  | dict place => Memory.setDict place (← m.insert? (m.dictAt place) i v)
  | _ => failure

end Value

end ByteAsm.Expression
