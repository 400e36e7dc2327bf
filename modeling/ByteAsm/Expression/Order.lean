import ByteAsm.Expression.Value

namespace ByteAsm.Expression

def depthLimit : Nat := 10

def sameItems? (eq : Value → Value → Option Bool) : (xs ys : List Value) → Option Bool
  | [], [] => some true
  | x :: xs, y :: ys =>
    match eq x y with
    | some true => sameItems? eq xs ys
    | result => result
  | _, _ => some false

def sameEntries? (find? : Value → Option (Option Value)) (eq : Value → Value → Option Bool) :
    List Entry → Option Bool
  | [] => some true
  | e :: rest =>
    match find? e.key with
    | some (some w) =>
      match eq e.value w with
      | some true => sameEntries? find? eq rest
      | result => result
    | _ => some false

-- Equality of values nested at most `depth` deep, where `find?` looks up keys. Values of different
-- types differ, except that integers and floating-point numbers are compared as numbers.
def equal? (find? : List Entry → Value → Option (Option Value)) (m : Memory) :
    (depth : Nat) → (x y : Value) → Option Bool
  | 0, _, _ => none
  | depth + 1, x, y =>
    match x, y with
    | .none, .none => some true
    | .bool a, .bool b => some (a == b)
    | .int m, .int n => some (m == n)
    | .float a, .float b => some (Binary64.order a b == .eq)
    | .int n, .float x | .float x, .int n => some (Binary64.compareInt n x == .eq)
    | .string s, .string t => some (s == t)
    | .tuple xs, .tuple ys =>
      if xs.length == ys.length then sameItems? (equal? find? m depth) xs ys else some false
    | .list p, .list q =>
      if (m.listAt p).length == (m.listAt q).length then
        sameItems? (equal? find? m depth) (m.listAt p) (m.listAt q)
      else some false
    | .dict p, .dict q =>
      if (m.dictAt p).length == (m.dictAt q).length then
        sameEntries? (find? (m.dictAt q)) (equal? find? m depth) (m.dictAt p)
      else some false
    | .builtin f, .builtin g => some (f == g)
    | _, _ => some false

-- The entry with a key, of which `eq` tells what equals it. A value without a code is no key.
def Entry.find? (eq : Value → Value → Option Bool) (key : Value) (entries : List Entry) :
    Option (Option Entry) :=
  match key.code? with
  | none => none
  | some code => go code entries
where
  go (code : UInt32) : List Entry → Option (Option Entry)
    | [] => some none
    | e :: rest =>
      if e.code == code then
        match eq key e.key with
        | some true => some (some e)
        | some false => go code rest
        | none => none
      else go code rest

namespace Memory

def equalKeys? (m : Memory) : (x y : Value) → Option Bool :=
  equal? (fun _ _ => none) m depthLimit

def get? (m : Memory) (entries : List Entry) (key : Value) : Option (Option Value) :=
  (Entry.find? m.equalKeys? key entries).map (·.map (·.value))

def insert? (m : Memory) (entries : List Entry) (key value : Value) : Option (List Entry) :=
  match key.code?, Entry.find? m.equalKeys? key entries with
  | some code, some none => some (entries ++ [⟨code, key, value⟩])
  | some code, some (some _) =>
    some (entries.map fun e =>
      if e.code == code && m.equalKeys? e.key key == some true then { e with value } else e)
  | _, _ => none

def equals? (m : Memory) (x y : Value) : Option Bool :=
  equal? m.get? m depthLimit x y

def orderText (s t : Text) : Ordering :=
  if s < t then .lt else if t < s then .gt else .eq

def orderItems? (eq : Value → Value → Option Bool) (cmp : Value → Value → Option Ordering) :
    (xs ys : List Value) → Option Ordering
  | [], [] => some .eq
  | [], _ :: _ => some .lt
  | _ :: _, [] => some .gt
  | x :: xs, y :: ys =>
    match eq x y with
    | some true => orderItems? eq cmp xs ys
    | some false => cmp x y
    | none => none

-- The order of values nested at most `depth` deep, which exists between numbers and between values
-- of one type, other than dictionaries and functions.
def order? (m : Memory) : (depth : Nat) → (x y : Value) → Option Ordering
  | 0, _, _ => none
  | depth + 1, x, y =>
    match x, y with
    | .bool a, .bool b => some (compare a.toNat b.toNat)
    | .int m, .int n => some (compare m n)
    | .float a, .float b => some (Binary64.order a b)
    | .int n, .float x => some (Binary64.compareInt n x)
    | .float x, .int n => some (Binary64.compareInt n x).swap
    | .string s, .string t => some (orderText s t)
    | .tuple xs, .tuple ys => orderItems? (equal? m.get? m depth) (order? m depth) xs ys
    | .list p, .list q =>
      orderItems? (equal? m.get? m depth) (order? m depth) (m.listAt p) (m.listAt q)
    | _, _ => none

def orders? (m : Memory) (x y : Value) : Option Ordering :=
  order? m depthLimit x y

end Memory

end ByteAsm.Expression
