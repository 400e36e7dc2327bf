import ByteAsm.Operand.Word
import ByteAsm.Text.Quoted
import ByteAsm.Text.UpperCase

namespace ByteAsm.CommandLine

abbrev Defines := List (Text × Text)

namespace Defines

-- Adds `NAME=VALUE`, or `NAME` with the value 1. A name is spelled like a label that expressions
-- can use.
def add (defines : Defines) (definition : Text) : Except Text Defines :=
  let (name, value) := Text.cut '='.toUInt8 definition
  if Word.isLabel name && name.head? != some '.'.toUInt8 then
    .ok (defines ++ [(name, value.getD "1")])
  else .error (Text.ofString "invalid name " ++ Text.quoted name)

def render (defines : Defines) : Text :=
  Text.join "," (defines.map fun (name, value) => name ++ '='.toUInt8 :: value)

end Defines

structure Options where
  source    : Text := "-"
  output    : Text := []
  listing   : Bool := false
  labels    : Bool := false
  json      : Bool := false
  defines   : Defines := []
  verbosity : Int := 0
  threshold : Int := 2
  logAll    : Bool := true
  logBoth   : Bool := false

inductive Flag
  | switch (set : Bool → Options → Options)
  | value (set : Text → Options → Except Text Options)

inductive Refusal
  | help
  | fault (report : Text)

namespace Flag

def any (set : Text → Options → Options) : Flag :=
  value fun t options => .ok (set t options)

def integer (t : Text) : Except Text Int :=
  let report (reason : String) :=
    Text.ofString "strconv.Atoi: parsing " ++ Text.quoted t ++ Text.ofString ": " ++
      Text.ofString reason
  match Numeral.read 10 t with
  | .error .malformed => .error (report "invalid syntax")
  | .error .overflow => .error (report "value out of range")
  | .ok n => .ok n

-- A level as a signed 32-bit word, of which a larger number leaves the low bits.
def level (t : Text) : Except Text Int :=
  (integer t).map (·.bmod 0x100000000)

def severities : List (Text × Int) := [
  ("INFO", 0), ("WARNING", 1), ("ERROR", 2), ("FATAL", 3)]

def severity (t : Text) : Except Text Int :=
  match severities.lookup t.upper with
  | some n => .ok n
  | none =>
    match integer t with
    | .error e => .error e
    | .ok n =>
      if 0 ≤ n ∧ n ≤ 3 then .ok n
      else .error (Text.ofString "Severity " ++ Numeral.decimal n ++
        Text.ofString " out of range (min 0, max 3).")

def modules (t : Text) : Except Text Unit :=
  (t.splitOn ','.toUInt8).forM fun item =>
    match item.splitOn '='.toUInt8 with
    | [[]] => .ok ()
    | [_ :: _, n] => if (integer n).isOk then .ok () else wrong
    | _ => wrong
where
  wrong : Except Text Unit :=
    .error (Text.ofString "syntax error: expect comma-separated list of filename=N")

def places (t : Text) : Except Text Unit :=
  (t.splitOn ','.toUInt8).forM fun item =>
    match item.splitOn ':'.toUInt8 with
    | [[]] => .ok ()
    | [file, line] =>
      match file.contains '.'.toUInt8, integer line with
      | true, .ok n => if n < 0 then .error (Text.ofString "negative value for line") else .ok ()
      | _, _ => wrong
    | _ => wrong
where
  wrong : Except Text Unit :=
    .error (Text.ofString "syntax error: expect file.go:234")

def literal (t : Text) : Except Text Unit :=
  match Numeral.readMarked t with
  | .error .malformed => .error (Text.ofString "parse error")
  | .error .overflow => .error (Text.ofString "value out of range")
  | .ok _ => .ok ()

def checked (form : Text → Except Text Unit) : Flag :=
  value fun t options => (form t).map fun _ => options

def all : List (Text × Flag) := [
  ("c", any fun t options => { options with source := t }),
  ("o", any fun t options => { options with output := t }),
  ("l", switch fun b options => { options with listing := b }),
  ("labels", switch fun b options => { options with labels := b }),
  ("json", switch fun b options => { options with json := b }),
  ("dump", switch fun _ options => options),
  ("D", value fun t options =>
    (options.defines.add t).map fun defines => { options with defines }),
  ("v", value fun t options => (level t).map fun n => { options with verbosity := n }),
  ("logtostderr", switch fun b options => { options with logAll := b }),
  ("alsologtostderr", switch fun b options => { options with logBoth := b }),
  ("stderrthreshold", value fun t options =>
    (severity t).map fun n => { options with threshold := n }),
  ("vmodule", checked modules),
  ("log_backtrace_at", checked places),
  ("log_dir", any fun _ options => options),
  ("log_link", any fun _ options => options),
  ("logbuflevel", checked literal)]

def switchWords : List (Text × Bool) := [
  ("1", true), ("t", true), ("T", true), ("TRUE", true), ("true", true), ("True", true),
  ("0", false), ("f", false), ("F", false), ("FALSE", false), ("false", false), ("False", false)]

end Flag

namespace Options

def body? (arg : Text) : Option Text :=
  match arg with
  | a :: b :: rest =>
    if a == '-'.toUInt8 then some (if b == '-'.toUInt8 then rest else b :: rest) else none
  | _ => none

def fault (report : String) (about : Text) : Refusal :=
  .fault (Text.ofString report ++ about)

def setSwitch (set : Bool → Options → Options) (name : Text) (value : Option Text)
    (options : Options) : Except Refusal Options :=
  match value with
  | none => .ok (set true options)
  | some t =>
    match Flag.switchWords.lookup t with
    | some b => .ok (set b options)
    | none =>
      .error (fault "invalid boolean value "
        (Text.quoted t ++ Text.ofString " for -" ++ name ++ Text.ofString ": parse error"))

def setValue (set : Text → Options → Except Text Options) (name value : Text) (options : Options) :
    Except Refusal Options :=
  match set value options with
  | .ok options => .ok options
  | .error reason =>
    .error (fault "invalid value "
      (Text.quoted value ++ Text.ofString " for flag -" ++ name ++ Text.ofString ": " ++ reason))

def unknown (name : Text) : Refusal :=
  if name = Text.ofString "help" ∨ name = Text.ofString "h" then .help
  else fault "flag provided but not defined: -" name

def nameAndValue? : (body : Text) → Option (Text × Option Text)
  | [] => none
  | c :: rest =>
    if c == '-'.toUInt8 || c == '='.toUInt8 then none
    else
      let (name, value) := Text.cut '='.toUInt8 rest
      some (c :: name, value)

-- Reads options up to the first argument that is none, or up to a double dash, and returns the
-- arguments behind them.
def read (options : Options) : List Text → Except Refusal (Options × List Text)
  | [] => .ok (options, [])
  | arg :: rest =>
    match body? arg with
    | none => .ok (options, arg :: rest)
    | some body =>
      if arg = Text.ofString "--" then .ok (options, rest)
      else match nameAndValue? body with
        | none => .error (fault "bad flag syntax: " arg)
        | some (name, value) =>
          match Flag.all.lookup name, value, rest with
          | none, _, _ => .error (unknown name)
          | some (.switch set), value, rest =>
            match setSwitch set name value options with
            | .ok options => read options rest
            | .error e => .error e
          | some (.value set), some value, rest =>
            match setValue set name value options with
            | .ok options => read options rest
            | .error e => .error e
          | some (.value set), none, value :: rest =>
            match setValue set name value options with
            | .ok options => read options rest
            | .error e => .error e
          | some (.value _), none, [] => .error (fault "flag needs an argument: -" name)

end Options

end ByteAsm.CommandLine
