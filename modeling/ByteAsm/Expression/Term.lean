import ByteAsm.Expression.Token

namespace ByteAsm.Expression

inductive UnaryOp
  | plus | minus | invert | not
deriving DecidableEq

inductive Term
  | absent
  | name (spelling : Text)
  | int (value : Int)
  | float (value : Float)
  | string (value : Text)
  | list (items : List Term)
  | tuple (items : List Term)
  | dict (entries : List (Term × Term))
  | unary (o : UnaryOp) (x : Term)
  | binary (o : BinaryOp) (x y : Term)
  | cond (test yes no : Term)
  | index (x i : Term)
  | slice (x low high step : Term)
  -- A call with arguments by place and by name, more of both kinds being the items of `rest` and
  -- the entries of `restNamed`.
  | call (f : Term) (args : List Term) (named : List (Text × Term)) (rest restNamed : Term)

-- The level of an operator. Level 2 is that of `not`.
def BinaryOp.level : BinaryOp → Nat
  | or => 0
  | and => 1
  | eq | ne | lt | gt | le | ge | isIn | notIn => 3
  | bitOr => 4
  | bitXor => 5
  | bitAnd => 6
  | shiftLeft | shiftRight => 7
  | add | sub => 8
  | mul | div | floorDiv | mod => 9

namespace Term

def isAbsent : Term → Bool
  | absent => true
  | _ => false

structure Arguments where
  args      : List Term := []
  named     : List (Text × Term) := []
  rest      : Term := absent
  restNamed : Term := absent

namespace Arguments

def limit : Nat := 255

def isOpen (a : Arguments) : Bool :=
  a.rest.isAbsent && a.restNamed.isAbsent

def add? (a : Arguments) (x : Term) : Option Arguments :=
  if a.isOpen && a.named.isEmpty && a.args.length < limit then
    some { a with args := a.args ++ [x] }
  else none

def addNamed? (a : Arguments) (s : Text) (x : Term) : Option Arguments :=
  if a.isOpen && a.named.length < limit && !a.named.any (·.1 == s) then
    some { a with named := a.named ++ [(s, x)] }
  else none

def addRest? (a : Arguments) (x : Term) : Option Arguments :=
  if a.isOpen then some { a with rest := x } else none

def addRestNamed? (a : Arguments) (x : Term) : Option Arguments :=
  if a.restNamed.isAbsent then some { a with restNamed := x } else none

end Arguments

-- The operator at the front. Behind an operand `not` is only the first half of `not in`.
def operator? : List Token → Option (Option (BinaryOp × List Token))
  | .not :: .op .isIn :: rest => some (some (.notIn, rest))
  | .not :: _ => none
  | .op o :: rest => some (some (o, rest))
  | _ => some none

-- In all of these `fuel` bounds the depth of the calls. The tokens left come beside the result.
mutual

def single? : (fuel : Nat) → List Token → Option (Term × List Token)
  | 0, _ => none
  | fuel + 1, ts =>
    match level? fuel 0 ts with
    | some (yes, .ifWord :: ts) =>
      match level? fuel 0 ts with
      | some (test, .elseWord :: ts) =>
        match single? fuel ts with
        | some (no, ts) => some (.cond test yes no, ts)
        | none => none
      | _ => none
    | result => result

-- A term whose operators outside of brackets have level `p` or a higher one.
def level? : (fuel : Nat) → (p : Nat) → List Token → Option (Term × List Token)
  | 0, _, _ => none
  | fuel + 1, p, ts =>
    if 10 ≤ p then
      match primary? fuel ts with
      | some (x, ts) => suffixes? fuel x ts
      | none => none
    else match p, ts with
      | 2, .not :: ts =>
        match level? fuel 2 ts with
        | some (x, ts) => some (.unary .not x, ts)
        | none => none
      | p, ts =>
        match level? fuel (p + 1) ts with
        | some (x, ts) => chain? fuel p true x ts
        | none => none

def chain? : (fuel : Nat) → (p : Nat) → (first : Bool) → (x : Term) → List Token →
    Option (Term × List Token)
  | 0, _, _, _, _ => none
  | fuel + 1, p, first, x, ts =>
    match operator? ts with
    | none => none
    | some none => some (x, ts)
    | some (some (o, rest)) =>
      if o.level < p then some (x, ts)
      else if o.level == 3 && !first then none
      else match level? fuel (o.level + 1) rest with
        | some (y, rest) => chain? fuel p false (.binary o x y) rest
        | none => none

def suffixes? : (fuel : Nat) → (x : Term) → List Token → Option (Term × List Token)
  | 0, _, _ => none
  | fuel + 1, x, ts =>
    match ts with
    | .opening '[' :: .colon :: ts => slice? fuel x .absent ts
    | .opening '[' :: ts =>
      match listed? fuel false ts with
      | some (i, .closing ']' :: ts) => suffixes? fuel (.index x i) ts
      | some (low, .colon :: ts) => slice? fuel x low ts
      | _ => none
    | .opening '(' :: ts =>
      match arguments? fuel {} ts with
      | some (a, ts) => suffixes? fuel (.call x a.args a.named a.rest a.restNamed) ts
      | none => none
    | ts => some (x, ts)

def slice? : (fuel : Nat) → (x low : Term) → List Token → Option (Term × List Token)
  | 0, _, _, _ => none
  | fuel + 1, x, low, ts =>
    match bound? fuel ts with
    | some (high, .closing ']' :: ts) => suffixes? fuel (.slice x low high .absent) ts
    | some (high, .colon :: ts) =>
      match bound? fuel ts with
      | some (step, .closing ']' :: ts) => suffixes? fuel (.slice x low high step) ts
      | _ => none
    | _ => none

def bound? : (fuel : Nat) → List Token → Option (Term × List Token)
  | 0, _ => none
  | fuel + 1, ts =>
    match ts with
    | .colon :: _ | .closing ']' :: _ => some (.absent, ts)
    | ts => single? fuel ts

def primary? : (fuel : Nat) → List Token → Option (Term × List Token)
  | 0, _ => none
  | fuel + 1, ts =>
    match ts with
    | .name s :: ts => some (.name s, ts)
    | .int n :: ts => some (.int n, ts)
    | .float x :: ts => some (.float x, ts)
    | .string t :: ts => some (.string t, ts)
    | .op .sub :: ts => signed? fuel .minus ts
    | .op .add :: ts => signed? fuel .plus ts
    | .tilde :: ts => signed? fuel .invert ts
    | .opening '(' :: .closing ')' :: ts => some (.tuple [], ts)
    | .opening '(' :: ts =>
      match listed? fuel true ts with
      | some (x, .closing ')' :: ts) => some (x, ts)
      | _ => none
    | .opening '[' :: .closing ']' :: ts => some (.list [], ts)
    | .opening '[' :: ts =>
      match single? fuel ts with
      | some (x, ts) =>
        match more? fuel true [x] ts with
        | some (xs, .closing ']' :: ts) => some (.list xs, ts)
        | _ => none
      | none => none
    | .opening '\x7b' :: .closing '\x7d' :: ts => some (.dict [], ts)
    | .opening '\x7b' :: ts => entries? fuel [] ts
    | _ => none

def signed? : (fuel : Nat) → (o : UnaryOp) → List Token → Option (Term × List Token)
  | 0, _, _ => none
  | fuel + 1, o, ts =>
    match level? fuel 10 ts with
    | some (x, ts) => some (.unary o x, ts)
    | none => none

def listed? : (fuel : Nat) → (trailing : Bool) → List Token → Option (Term × List Token)
  | 0, _, _ => none
  | fuel + 1, trailing, ts =>
    match single? fuel ts with
    | some (x, .comma :: ts) =>
      match more? fuel trailing [x] (.comma :: ts) with
      | some (xs, ts) => some (.tuple xs, ts)
      | none => none
    | result => result

-- Terms behind `done`, each after a comma. Where `trailing` holds, the last comma may have no term
-- behind it.
def more? : (fuel : Nat) → (trailing : Bool) → (done : List Term) → List Token →
    Option (List Term × List Token)
  | 0, _, _, _ => none
  | fuel + 1, trailing, done, ts =>
    match ts with
    | .comma :: .closing c :: ts => if trailing then some (done.reverse, .closing c :: ts) else none
    | .comma :: ts =>
      match single? fuel ts with
      | some (x, ts) => more? fuel trailing (x :: done) ts
      | none => none
    | ts => some (done.reverse, ts)

def entries? : (fuel : Nat) → (done : List (Term × Term)) → List Token →
    Option (Term × List Token)
  | 0, _, _ => none
  | fuel + 1, done, ts =>
    match single? fuel ts with
    | some (key, .colon :: ts) =>
      match single? fuel ts with
      | some (value, .closing '\x7d' :: ts)
      | some (value, .comma :: .closing '\x7d' :: ts) =>
        some (.dict ((key, value) :: done).reverse, ts)
      | some (value, .comma :: ts) => entries? fuel ((key, value) :: done) ts
      | _ => none
    | _ => none

def arguments? : (fuel : Nat) → (a : Arguments) → List Token → Option (Arguments × List Token)
  | 0, _, _ => none
  | fuel + 1, a, ts =>
    match ts with
    | .closing ')' :: ts => some (a, ts)
    | .op .mul :: ts => argument? fuel a.addRest? ts
    | .doubleStar :: ts => argument? fuel a.addRestNamed? ts
    | .name s :: .assign :: ts => argument? fuel (a.addNamed? s) ts
    | ts => argument? fuel a.add? ts

def argument? : (fuel : Nat) → (add : Term → Option Arguments) → List Token →
    Option (Arguments × List Token)
  | 0, _, _ => none
  | fuel + 1, add, ts =>
    match single? fuel ts with
    | some (x, .comma :: ts) =>
      match add x with
      | some a => arguments? fuel a ts
      | none => none
    | some (x, .closing ')' :: ts) => (add x).map (·, ts)
    | _ => none

end

end Term

inductive Step
  | pass
  | drop (x : Term)
  | assign (target x : Term)
  | update (o : BinaryOp) (x i y : Term)

namespace Step

-- One step at the front. Only what stands at an index can be changed, since no name is assigned
-- twice.
def single? (fuel : Nat) : List Token → Option (Step × List Token)
  | .pass :: ts => some (.pass, ts)
  | ts =>
    match Term.listed? fuel false ts with
    | some (target, .assign :: ts) =>
      (Term.listed? fuel false ts).map fun (x, ts) => (.assign target x, ts)
    | some (.index x i, .update o :: ts) =>
      (Term.listed? fuel false ts).map fun (y, ts) => (.update o x i y, ts)
    | some (x, ts) => some (.drop x, ts)
    | none => none

def all? (depth : Nat) : (fuel : Nat) → (done : List Step) → List Token → Option (List Step)
  | _, done, [] => some done.reverse
  | 0, _, _ => none
  | fuel + 1, done, .newline :: ts => all? depth fuel done ts
  | fuel + 1, done, ts =>
    match single? depth ts with
    | some (step, []) => some (step :: done).reverse
    | some (step, .newline :: ts) | some (step, .semicolon :: ts) =>
      all? depth fuel (step :: done) ts
    | _ => none

-- Reads a program. A token deepens the calls by less than 16.
def read? (t : Text) : Option (List Step) :=
  (Token.scan? t).bind fun ts => all? (16 * (ts.length + 1)) ts.length [] ts

end Step

end ByteAsm.Expression
