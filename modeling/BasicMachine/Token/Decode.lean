import BasicMachine.Token.Basic
import BasicMachine.Token.Split
import BasicMachine.Text.Integer

/-! Turning the parts of a line into tokens. Each reader accepts one written form; `decode` picks the
reader by the first character. -/
namespace BasicMachine.Token

/-- The digit of a string variable is one of 1 to 8. A numeric character without a digit value is a
fault of its own. -/
def isVariableDigit (c : Char) : Except Fault Bool :=
  if isNumeric c then
    match digitValue? c with
    | some d => .ok (0 < d && d < 9)
    | none => .error (.notADigit c)
  else .ok false

def asStringVar (part : Text) : Except Fault Token := do
  match part with
  | ['$', c] => if ← isVariableDigit c then return .stringVar part
  | _ => pure ()
  throw (.malformed .string part)

def asNumber (part : Text) : Except Fault Token :=
  match Text.readInteger? part with
  | some n => .ok (.number n)
  | none => .error (.malformed .number part)

def asQuote (part : Text) : Except Fault Token :=
  if part.head? = some '"' ∧ part.getLast? = some '"' then .ok (.quote part)
  else .error (.malformed .quote part)

def asSymbol : Text → Except Fault Token
  | [] => .error .emptyText
  | c :: _ => .ok (.symbol [c])

def asNumericVar : Text → Except Fault Token
  | [c] => if isLetter c then .ok (.numericVar (upper [c])) else .error (.malformed .numericVar [c])
  | part => .error (.malformed .numericVar part)

def asWord (part : Text) : Except Fault Token :=
  if !part.isEmpty && part.all isLetter then .ok (.word part) else .error (.malformed .word part)

/-- Spaces inside a reference do not count. -/
def asStringRef (part : Text) : Except Fault Token := do
  let tight := part.filter (· != ' ')
  match tight with
  | ['&', '$', c] => if ← isVariableDigit c then return .stringRef tight
  | _ => pure ()
  throw (.malformed .reference tight)

def asLabel (part : Text) : Except Fault Token :=
  match part.getLast? with
  | none => .error .emptyText
  | some c => if c = ':' then .ok (.label part) else .error (.malformed .label part)

def asChar (part : Text) : Except Fault Token :=
  match part with
  | ['\'', _, '\''] => .ok (.char part)
  | _ => .error (.malformed .character part)

/-- A part that begins with a letter. -/
def decodeLettered (part : Text) : Except Fault Token :=
  if part.length = 1 then asNumericVar part
  else if ['R', 'E', 'M', ' '].isPrefixOf (upper part) then .ok (.comment [])
  else if part.getLast? = some ':' then .ok (.label part)
  else asWord part

def decode (part : Text) : Except Fault Token :=
  match part with
  | [] => .error .emptyText
  | c :: _ =>
    if c = '$' then asStringVar part
    else if isNumeric c then asNumber part
    else if c = '"' then asQuote part
    else if c = '\'' then asChar part
    else if isLetter c then decodeLettered part
    else if c = '&' then asStringRef part
    else asSymbol part

def decodeAll : List Text → Except Fault (List Token)
  | [] => .ok []
  | part :: rest => do
    let t ← decode part
    let ts ← decodeAll rest
    return t :: ts

/-- The tokens of a line. A comment is a single token that holds the text behind `REM `. -/
def parse (line : Text) : Except Fault (List Token) := do
  match ← decodeAll (← splitLine line) with
  | .comment _ :: _ => return [.comment ((strip line).drop 4)]
  | tokens => return tokens

end BasicMachine.Token
