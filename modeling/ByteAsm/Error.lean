import ByteAsm.Message

namespace ByteAsm

inductive Error
  | offsetRange
  | operandRange
  | characterCount
  | malformed
  | lineTooLong
  | notANumber (word : Text)
  | badExpression (body : Text)
  | unknownMnemonic (mnemonic : Text)
  | unsupportedOperands (mnemonic : Text)
  | tooManyOperands (mnemonic : Text)
  | duplicateLabel (label : Text)
  | reservedLabel (label : Text)
  | undefinedLabel (label : Text)
  | labelRange (label : Text)
  -- A cause found on a line, counted from zero.
  | onLine (line : Int) (text : Text) (cause : Error)
  -- A fault outside the assembler, such as a source that cannot be read to its end.
  | external (report : Text)
deriving DecidableEq

namespace Error

def message : Error → Text
  | offsetRange => "offset must be a value between -16...+15"
  | operandRange => "operand must have a value between 0-255"
  | characterCount => "only one character is allowed, use a string instead"
  | malformed => "syntax error"
  | lineTooLong => "bufio.Scanner: token too long"
  | notANumber word => Message.format "'%v' is not a number" [.text word]
  | badExpression body => Message.format "$(%v) is not a valid expression" [.text body]
  | unknownMnemonic mnemonic => Message.format "invalid instruction: %v" [.text mnemonic]
  | unsupportedOperands mnemonic =>
    Message.format "%v does not support these operands" [.text mnemonic]
  | tooManyOperands mnemonic => Message.format "%v: too many arguments" [.text mnemonic]
  | duplicateLabel label => Message.format "duplicate label: %v" [.text label]
  | reservedLabel label => Message.format "label contains keyword: %v" [.text label]
  | undefinedLabel label => Message.format "undefined label: %v" [.text label]
  | labelRange label => Message.format "label %v is beyond 0-255" [.text label]
  | onLine line text cause =>
    Message.format "line %d '%v' %v"
      [.number (Numeral.wrap (line + 1)), .text text, .text cause.message]
  | external report => report

def cause? : Error → Option Error
  | labelRange _ => some operandRange
  | onLine _ _ cause => some cause
  | _ => none

def isOperandRange : Error → Bool
  | operandRange => true
  | labelRange _ => true
  | onLine _ _ cause => cause.isOperandRange
  | _ => false

end Error

structure Diagnostic where
  report : Text
  line   : Option Int
deriving DecidableEq

-- The outermost line of an error is shown beside the text of its cause. Without a line the text is
-- that of the error itself.
def Error.diagnose : Error → Diagnostic
  | onLine line _ cause => ⟨cause.message, some line⟩
  | e => ⟨e.message, none⟩

end ByteAsm
