import ByteAsm.Operand.Word
import ByteAsm.Text.WhiteSpace

namespace ByteAsm

structure Command where
  mnemonic : Text
  operands : List Text
deriving DecidableEq

def Command.words (c : Command) : List Text :=
  c.mnemonic :: c.operands

structure Line where
  label   : Option Text := none
  command : Option Command := none
deriving DecidableEq

namespace Line

def isEmpty (line : Line) : Bool :=
  line.label.isNone && line.command.isNone

def skipBlanks (t : Text) : Text :=
  t.dropWhile Byte.isBlank

def name? : Text → Option (Text × Text)
  | [] => none
  | c :: rest =>
    if Word.startsLabel c then some (c :: rest.takeWhile Byte.isWord, rest.dropWhile Byte.isWord)
    else none

def label? (t : Text) : Option (Text × Text) :=
  match name? t with
  | some (name, c :: rest) => if c == ':'.toUInt8 then some (name, rest) else none
  | _ => none

-- Two to four letters that are no part of a longer word.
def mnemonic? (t : Text) : Option (Text × Text) :=
  let word := t.takeWhile Byte.isLetter
  let rest := t.dropWhile Byte.isLetter
  if 2 ≤ word.length ∧ word.length ≤ 4 ∧ ¬rest.head?.any Byte.isWord then some (word, rest)
  else none

-- A sign and digits, or nothing. `none` if a sign has no digit behind it.
def offset? : Text → Option (Text × Text)
  | [] => some ([], [])
  | c :: rest =>
    if c == '+'.toUInt8 || c == '-'.toUInt8 then
      let digits := rest.takeWhile Byte.isDigit
      if digits.isEmpty then none else some (c :: digits, rest.dropWhile Byte.isDigit)
    else some ([], c :: rest)

def bracketed? (t : Text) : Option (Text × Text) :=
  let word := t.takeWhile Byte.isWord
  if word.isEmpty then none
  else match offset? (t.dropWhile Byte.isWord) with
    | some (offset, c :: rest) =>
      if c == ']'.toUInt8 then some (word ++ offset ++ [c], rest) else none
    | _ => none

-- The part of a quoted operand behind its opening quote. The first character may itself be the
-- quote.
def quoted? (quote : UInt8) : Text → Option (Text × Text)
  | [] => none
  | c :: t =>
    match t.dropWhile (· != quote) with
    | [] => none
    | _ :: rest => some (c :: t.takeWhile (· != quote) ++ [quote], rest)

def isQuote (c : UInt8) : Bool :=
  c == '"'.toUInt8 || c == '\''.toUInt8

def operand? : Text → Option (Text × Text)
  | [] => none
  | c :: rest =>
    if c == '['.toUInt8 then (bracketed? rest).map fun (t, rest) => (c :: t, rest)
    else if isQuote c then (quoted? c rest).map fun (t, rest) => (c :: t, rest)
    else if Word.startsLabel c || Byte.isDigit c then
      some (c :: rest.takeWhile Byte.isWord, rest.dropWhile Byte.isWord)
    else none

def secondOperand? (t : Text) : Option (Text × Text) :=
  match skipBlanks t with
  | [] => none
  | c :: rest => if c == ','.toUInt8 then operand? (skipBlanks rest) else none

def operands (t : Text) : List Text × Text :=
  match t with
  | [] => ([], t)
  | c :: _ =>
    if Byte.isBlank c then
      match operand? (skipBlanks t) with
      | none => ([], t)
      | some (first, rest) =>
        match secondOperand? rest with
        | none => ([first], rest)
        | some (second, rest) => ([first, second], rest)
    else ([], t)

def splitCommand (t : Text) : Option Command × Text :=
  match mnemonic? (skipBlanks t) with
  | none => (none, t)
  | some (mnemonic, rest) => (some ⟨mnemonic, (operands rest).1⟩, (operands rest).2)

def splitLabel (t : Text) : Option Text × Text :=
  match label? (skipBlanks t) with
  | none => (none, skipBlanks t)
  | some (name, rest) => (some name, rest)

def isTail (t : Text) : Bool :=
  match Text.trimStart t with
  | [] => true
  | c :: _ => c == ';'.toUInt8

-- Reads a source line. Behind its parts there may be only white space and a comment.
def read (t : Text) : Except Error Line :=
  let (label, rest) := splitLabel t
  let (command, rest) := splitCommand rest
  if isTail rest then .ok { label, command } else .error .malformed

end Line

end ByteAsm
