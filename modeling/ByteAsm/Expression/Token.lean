import ByteAsm.Expression.Binary64
import ByteAsm.Numeral
import ByteAsm.Text.Letter
import ByteAsm.Text.Utf8

namespace ByteAsm.Expression

inductive BinaryOp
  | or | and
  | eq | ne | lt | gt | le | ge | isIn | notIn
  | bitOr | bitXor | bitAnd
  | shiftLeft | shiftRight
  | add | sub
  | mul | div | floorDiv | mod
deriving DecidableEq

inductive Token
  | name (spelling : Text)
  | int (value : Nat)
  | float (value : Float)
  | string (value : Text)
  | op (o : BinaryOp)
  | not
  | tilde
  | ifWord
  | elseWord
  | pass
  | opening (c : Char)
  | closing (c : Char)
  | comma
  | colon
  | semicolon
  | doubleStar
  | assign
  | update (o : BinaryOp)
  | newline

namespace Token

def isHexDigit (c : Char) : Bool :=
  c.isDigit || ('a' ≤ c && c ≤ 'f') || ('A' ≤ c && c ≤ 'F')

def digitValue (c : Char) : Nat :=
  if c.isDigit then c.toNat - '0'.toNat else c.toUpper.toNat - 'A'.toNat + 10

def ofDigits (base : Nat) (ds : List Char) : Nat :=
  Numeral.value base (ds.map digitValue)

def exponent? : List Char → Option (Int × List Char)
  | 'e' :: rest => signed rest
  | 'E' :: rest => signed rest
  | cs => some (0, cs)
where
  signed : List Char → Option (Int × List Char)
    | '+' :: rest => digits 1 rest
    | '-' :: rest => digits (-1) rest
    | cs => digits 1 cs
  digits (sign : Int) (cs : List Char) : Option (Int × List Char) :=
    let ds := cs.takeWhile Char.isDigit
    if ds.isEmpty then none else some (sign * ofDigits 10 ds, cs.dropWhile Char.isDigit)

def float? (whole fraction rest : List Char) : Option (Token × List Char) :=
  match exponent? rest with
  | none => none
  | some (e, rest) =>
    match Binary64.ofDecimal? (ofDigits 10 (whole ++ fraction)) (e - fraction.length) with
    | some x => some (.float x, rest)
    | none => none

def based? (base : Nat) (isDigit : Char → Bool) (limit : Option Nat) (cs : List Char) :
    Option (Token × List Char) :=
  let ds := cs.takeWhile isDigit
  if ds.isEmpty || limit.any (· ≤ ofDigits base ds) then none
  else some (.int (ofDigits base ds), cs.dropWhile isDigit)

-- A decimal integer. Only zero may start with a zero.
def decimal? (ds rest : List Char) : Option (Token × List Char) :=
  if ds.head? == some '0' && ds.any (· != '0') then none else some (.int (ofDigits 10 ds), rest)

-- A number at the front. Octal and binary integers fit a signed 64-bit word, others may have any
-- size.
def number? (cs : List Char) : Option (Token × List Char) :=
  match cs with
  | '0' :: 'x' :: rest | '0' :: 'X' :: rest => based? 16 isHexDigit none rest
  | '0' :: 'o' :: rest | '0' :: 'O' :: rest =>
    based? 8 (fun c => '0' ≤ c && c ≤ '7') (some 0x8000000000000000) rest
  | '0' :: 'b' :: rest | '0' :: 'B' :: rest =>
    based? 2 (fun c => c == '0' || c == '1') (some 0x8000000000000000) rest
  | _ =>
    let whole := cs.takeWhile Char.isDigit
    match cs.dropWhile Char.isDigit with
    | '.' :: rest =>
      let fraction := rest.takeWhile Char.isDigit
      if whole.isEmpty && fraction.isEmpty then none
      else float? whole fraction (rest.dropWhile Char.isDigit)
    | 'e' :: rest => float? whole [] ('e' :: rest)
    | 'E' :: rest => float? whole [] ('E' :: rest)
    | rest => decimal? whole rest

-- The inside of a string up to its closing quote, and the rest. A backslash takes the next
-- character with it; a line does not end inside.
def quoted? (quote : Char) : (done : List Char) → List Char → Option (List Char × List Char)
  | _, [] => none
  | done, '\\' :: c :: rest => quoted? quote (c :: '\\' :: done) rest
  | done, c :: rest =>
    if c == quote then some (done.reverse, rest)
    else if c == '\n' || c == '\\' then none
    else quoted? quote (c :: done) rest

def tripleQuoted? (quote : Char) :
    (n : Nat) → (done : List Char) → List Char → Option (List Char × List Char)
  | _, _, [] => none
  | _, done, '\\' :: c :: rest => tripleQuoted? quote 0 (c :: '\\' :: done) rest
  | n, done, c :: rest =>
    if c == quote then
      if n == 2 then some ((done.drop 2).reverse, rest)
      else tripleQuoted? quote (n + 1) (c :: done) rest
    else if c == '\\' then none
    else tripleQuoted? quote 0 (c :: done) rest

def hexDigits? (n : Nat) (cs : List Char) : Option (Nat × List Char) :=
  let ds := cs.take n
  if ds.length == n && ds.all isHexDigit then some (ofDigits 16 ds, cs.drop n) else none

def scalar? (limit : Nat) : Nat × List Char → Option (Option Char × List Char)
  | (n, rest) => if n ≤ limit ∧ n.isValidChar then some (some (Char.ofNat n), rest) else none

-- The character that an escape stands for, read behind its backslash, and the rest. An escaped line
-- end stands for nothing.
def escape? : List Char → Option (Option Char × List Char)
  | '\n' :: rest => some (none, rest)
  | 'a' :: rest => some (some '\x07', rest)
  | 'b' :: rest => some (some '\x08', rest)
  | 'f' :: rest => some (some '\x0c', rest)
  | 'n' :: rest => some (some '\n', rest)
  | 'r' :: rest => some (some '\r', rest)
  | 't' :: rest => some (some '\t', rest)
  | 'v' :: rest => some (some '\x0b', rest)
  | '\\' :: rest => some (some '\\', rest)
  | '\'' :: rest => some (some '\'', rest)
  | '"' :: rest => some (some '"', rest)
  | 'x' :: rest => (hexDigits? 2 rest).bind (scalar? 127)
  | 'u' :: rest => (hexDigits? 4 rest).bind (scalar? 0x10FFFF)
  | 'U' :: rest => (hexDigits? 8 rest).bind (scalar? 0x10FFFF)
  | cs =>
    let ds := (cs.take 3).takeWhile fun c => '0' ≤ c && c ≤ '7'
    if ds.isEmpty then none else scalar? 127 (ofDigits 8 ds, cs.drop ds.length)

def unescape? (cs : List Char) : Option (List Char) :=
  go cs.length [] cs
where
  go : (fuel : Nat) → (done : List Char) → List Char → Option (List Char)
    | _, done, [] => some done.reverse
    | 0, _, _ :: _ => none
    | fuel + 1, done, '\\' :: rest =>
      match escape? rest with
      | some (some c, rest) => go fuel (c :: done) rest
      | some (none, rest) => go fuel done rest
      | none => none
    | fuel + 1, done, c :: rest => go fuel (c :: done) rest

def string? (raw : Bool) (quote : Char) (cs : List Char) : Option (Token × List Char) :=
  let literal :=
    match cs with
    | a :: b :: rest =>
      if a == quote && b == quote then tripleQuoted? quote 0 [] rest else quoted? quote [] cs
    | _ => quoted? quote [] cs
  match literal with
  | none => none
  | some (inside, rest) =>
    match if raw then some inside else unescape? inside with
    | some value => some (.string (Text.ofChars value), rest)
    | none => none

def startsName (c : Char) : Bool :=
  c == '_' || Text.isLetterChar c

def continuesName (c : Char) : Bool :=
  startsName c || c.isDigit

-- Words of the language that no expression may hold.
def reserved : List Text :=
  ["as", "async", "await", "break", "class", "continue", "def", "del", "elif", "except", "finally",
    "for", "from", "global", "import", "is", "lambda", "load", "nonlocal", "raise", "return", "try",
    "while", "with", "yield"]

def keywords : List (Text × Token) := [
  ("and", .op .and), ("or", .op .or), ("not", .not), ("in", .op .isIn), ("if", .ifWord),
  ("else", .elseWord), ("pass", .pass)]

def word? (spelling : Text) : Option Token :=
  if reserved.contains spelling then none
  else some ((keywords.lookup spelling).getD (.name spelling))

def mark? : List Char → Option (Token × List Char)
  | '=' :: '=' :: rest => some (.op .eq, rest)
  | '!' :: '=' :: rest => some (.op .ne, rest)
  | '<' :: '=' :: rest => some (.op .le, rest)
  | '>' :: '=' :: rest => some (.op .ge, rest)
  | '<' :: '<' :: rest => operator .shiftLeft rest
  | '>' :: '>' :: rest => operator .shiftRight rest
  | '/' :: '/' :: rest => operator .floorDiv rest
  | '*' :: '*' :: rest => some (.doubleStar, rest)
  | '<' :: rest => some (.op .lt, rest)
  | '>' :: rest => some (.op .gt, rest)
  | '=' :: rest => some (.assign, rest)
  | '+' :: rest => operator .add rest
  | '-' :: rest => operator .sub rest
  | '*' :: rest => operator .mul rest
  | '/' :: rest => operator .div rest
  | '%' :: rest => operator .mod rest
  | '&' :: rest => operator .bitAnd rest
  | '|' :: rest => operator .bitOr rest
  | '^' :: rest => operator .bitXor rest
  | '~' :: rest => some (.tilde, rest)
  | ',' :: rest => some (.comma, rest)
  | ':' :: rest => some (.colon, rest)
  | ';' :: rest => some (.semicolon, rest)
  | _ => none
where
  operator (o : BinaryOp) : List Char → Option (Token × List Char)
    | '=' :: rest => some (.update o, rest)
    | rest => some (.op o, rest)

def read? (cs : List Char) : Option (Token × List Char) :=
  match cs with
  | [] => none
  | '\'' :: rest => string? false '\'' rest
  | '"' :: rest => string? false '"' rest
  | 'r' :: '\'' :: rest => string? true '\'' rest
  | 'r' :: '"' :: rest => string? true '"' rest
  | c :: rest =>
    if startsName c then
      (word? (Text.ofChars (cs.takeWhile continuesName))).map (·, cs.dropWhile continuesName)
    else if c.isDigit || c == '.' then number? cs
    else mark? (c :: rest)

def unifyLineEnds : List Char → List Char → List Char
  | done, [] => done.reverse
  | done, '\r' :: '\n' :: rest => unifyLineEnds ('\n' :: done) rest
  | done, '\r' :: rest => unifyLineEnds ('\n' :: done) rest
  | done, c :: rest => unifyLineEnds (c :: done) rest

def isSpace (c : Char) : Bool :=
  c == ' ' || c == '\t'

def skipComment (cs : List Char) : List Char :=
  cs.dropWhile fun c => c != '\n' && c != '\x00'

-- The tokens of a text. Inside brackets, of which `depth` are open, lines do not count; outside, no
-- line is indented and blank lines are skipped.
def lines? : (fuel : Nat) → (depth : Nat) → (fresh : Bool) → (done : List Token) → List Char →
    Option (List Token)
  | 0, _, _, _, _ => none
  | fuel + 1, depth, true, done, cs =>
    match cs.dropWhile isSpace with
    | [] => some done.reverse
    | c :: rest =>
      if c == '\n' then lines? fuel depth true done rest
      else if c == '#' then lines? fuel depth true done (skipComment rest)
      else if depth == 0 && cs.head?.any isSpace && c != '\x00' then none
      else lines? fuel depth false done (c :: rest)
  | fuel + 1, depth, false, done, cs =>
    match cs.dropWhile isSpace with
    | [] => some done.reverse
    | '\x00' :: _ => some done.reverse
    | '#' :: rest => lines? fuel depth false done (skipComment rest)
    | '\n' :: rest =>
      lines? fuel depth true (if depth == 0 then .newline :: done else done) rest
    | '\\' :: '\n' :: rest => lines? fuel depth false done rest
    | c :: rest =>
      if c == '(' || c == '[' || c == '\x7b' then
        lines? fuel (depth + 1) false (.opening c :: done) rest
      else if c == ')' || c == ']' || c == '\x7d' then
        if depth == 0 then none else lines? fuel (depth - 1) false (.closing c :: done) rest
      else match read? (c :: rest) with
        | some (token, rest) => lines? fuel depth false (token :: done) rest
        | none => none

def scan? (t : Text) : Option (List Token) :=
  let cs := unifyLineEnds [] t.chars
  lines? (2 * cs.length + 2) 0 true [] cs

end Token

end ByteAsm.Expression
