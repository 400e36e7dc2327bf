import ByteAsm.Line

namespace ByteAsm.Expansion

-- The body of an expression up to its closing bracket. It holds no dollar sign, and `inner` tells
-- whether a bracket inside it is open; no further one opens then.
def body? : (inner : Bool) → (done : Text) → Text → Option Text
  | _, _, [] => none
  | inner, done, c :: rest =>
    if c == '$'.toUInt8 then none
    else if c == '('.toUInt8 then if inner then none else body? true (c :: done) rest
    else if c == ')'.toUInt8 then
      if inner then body? false (c :: done) rest else some done.reverse
    else body? inner (c :: done) rest

def expression? : Text → Option Text
  | [] => none
  | c :: rest => if c == '('.toUInt8 then body? false [] rest else none

-- The value of an expression, which is neither negative nor beyond a signed 64-bit word.
def evaluate (value? : Text → Option Int) (body : Text) : Except Error Nat :=
  match value? body with
  | none => .error (.badExpression body)
  | some n => if 0 ≤ n ∧ n < 0x8000000000000000 then .ok n.toNat else .error .operandRange

def replace (value? : Text → Option Int) (t : Text) : Except Error Text :=
  go 0 [] t
where
  -- `skip` counts the bytes ahead that have been dealt with, and `done` is the result so far from
  -- its end to its start.
  go : (skip : Nat) → (done : Text) → Text → Except Error Text
    | _, done, [] => .ok done.reverse
    | skip + 1, done, _ :: rest => go skip done rest
    | 0, done, c :: rest =>
      if c == ';'.toUInt8 then .ok (done.reverse ++ c :: rest)
      else if Line.isQuote c then
        match Line.quoted? c rest with
        | some (literal, _) => go literal.length (literal.reverse ++ c :: done) rest
        | none => go 0 (c :: done) rest
      else if c == '$'.toUInt8 then
        match expression? rest with
        | some body =>
          match evaluate value? body with
          | .ok n => go (body.length + 2) ((Numeral.natural n).reverse ++ done) rest
          | .error e => .error e
        | none => go 0 (c :: done) rest
      else go 0 (c :: done) rest

-- The text may hold an expression: a dollar sign stands before a bracket.
def hasMark : Text → Bool
  | [] => false
  | c :: rest => c == '$'.toUInt8 && rest.head? == some '('.toUInt8 || hasMark rest

def expand (value? : Text → Option Int) (line : Text) : Except Error Text :=
  if hasMark line then replace value? line else .ok line

end ByteAsm.Expansion
