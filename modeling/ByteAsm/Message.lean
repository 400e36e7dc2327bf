import ByteAsm.Numeral

namespace ByteAsm.Message

inductive Argument
  | text (t : Text)
  | number (n : Int)
deriving DecidableEq

def Argument.render : Argument → Text
  | text t => t
  | number n => Numeral.grouped n

-- Fills the holes of a template with the arguments in order. A hole without an argument is left as
-- it stands.
def format : (template : Text) → List Argument → Text
  | [], _ => []
  | c :: rest, args =>
    if c == '%'.toUInt8 then
      match rest, args with
      | d :: rest, args =>
        if d == '%'.toUInt8 then c :: format rest args
        else match args with
          | [] => c :: d :: format rest []
          | arg :: args =>
            if d == 'v'.toUInt8 || d == 'd'.toUInt8 then arg.render ++ format rest args
            else c :: d :: format rest (arg :: args)
      | [], _ => [c]
    else c :: format rest args

def language : Text :=
  "und"

end ByteAsm.Message
