import BasicMachine.Argument

/-! A call of a command: the machine and the arguments, which the command takes one after another.
`next…` takes an argument and reads it, `has…` looks at the argument without taking it. An argument
counts as taken even if it cannot be read. -/
namespace BasicMachine

structure Arguments where
  tokens : List Token
  index : Int := 0
  deriving DecidableEq, Repr

namespace Arguments

def hasMore (a : Arguments) : Bool := decide (a.index < a.tokens.length)

/-- The argument at the index, if there are more. An index in front of the first argument counts from
the end. -/
def current (a : Arguments) : Except Fault (Option Token) :=
  if a.hasMore then do
    return a.tokens[← place .noSuchItem a.tokens.length a.index]?
  else .ok none

/-- The arguments from the index on. -/
def remaining (a : Arguments) : List Token := dropTo a.index a.tokens

end Arguments

structure Call where
  machine : Machine
  args : Arguments

/-- What a command does with its call. -/
abbrev Routine := Run Call Unit

namespace Call

def onMachine {α : Type} (x : Action α) : Run Call α :=
  Run.onPart Call.machine (fun machine c => { c with machine }) x

instance : MonadLift Action (Run Call) where
  monadLift := onMachine

def changeIndex (n : Int) : Run Call Unit :=
  modify fun c => { c with args := { c.args with index := c.args.index + n } }

/-- Takes the next argument without reading it. -/
def skip : Run Call Unit := changeIndex 1

/-- Gives the last argument back. -/
def reuse : Run Call Unit := changeIndex (-1)

def hasAny : Run Call Bool := do return (← get).args.hasMore

def expectArgument : Run Call Unit := do
  if !(← get).args.hasMore then throw .notEnoughArguments

def expectArguments (n : Int) : Run Call Unit := do
  let a := (← get).args
  if a.index + n > a.tokens.length then throw .notEnoughArguments

/-- The argument at the index, which stays where it is. -/
def current : Run Call Token := do
  let a := (← get).args
  match ← Run.ofExcept a.current with
  | some t => return t
  | none => throw .notEnoughArguments

def nextToken : Run Call Token := do
  let t ← current
  skip
  return t

/-- Takes the next argument and reads it. -/
def nextAs {α : Type} (read : Machine → Token → Except Fault α) : Run Call α := do
  let t ← nextToken
  Run.ofExcept (read (← get).machine t)

def nextNumeric : Run Call Int := nextAs Token.toNumeric

def nextString : Run Call Text := nextAs Token.toString

def nextNumericVar : Run Call Text := nextAs fun _ => Token.toNumericVar

def nextStringVar : Run Call Text := nextAs fun _ => Token.toStringVar

def nextWord : Run Call Text := nextAs fun _ => Token.toWord

def nextSymbol : Run Call Text := nextAs fun _ => Token.toSymbol

def nextAddress : Run Call Int := nextAs Token.toAddress

def nextLabel : Run Call (Text × Int) := nextAs Token.toLabel

/-- Stores a number in the variable that comes next. -/
def putNumeric (v : Int) : Run Call Unit := do
  Machine.setNumeric (← nextNumericVar) v

/-- Stores a text in the variable that comes next. -/
def putString (t : Text) : Run Call Unit := do
  Machine.setString (← nextStringVar) t

def isExpected (wanted found : Text) : Run Call Unit :=
  if found = wanted then pure () else throw (.expected wanted found)

def isOneOf (wanted : List Text) (found : Text) : Run Call Text :=
  if wanted.contains found then pure found else throw (.expectedOneOf wanted found)

def nextSymbolIs (wanted : Text) : Run Call Unit := do isExpected wanted (← nextSymbol)

def nextSymbolOf (wanted : List Text) : Run Call Text := do isOneOf wanted (← nextSymbol)

def nextWordIs (wanted : Text) : Run Call Unit := do isExpected wanted (← nextWord)

def nextWordOf (wanted : List Text) : Run Call Text := do isOneOf wanted (← nextWord)

/-- Looks at the next argument; there need not be one. -/
def look : Run Call (Option Token) := do Run.ofExcept (← get).args.current

def has (p : Token → Bool) : Run Call Bool := do return ((← look).map p).getD false

def hasString : Run Call Bool := has Token.isString

def hasNumeric : Run Call Bool := has Token.isNumeric

def hasNumericVar : Run Call Bool := has Token.isNumericVar

def hasStringVar : Run Call Bool := has Token.isStringVar

def hasWord : Run Call Bool := has Token.isWord

def hasSymbol : Run Call Bool := has Token.isSymbol

def hasSilent : Run Call Bool := has Token.isSilent

/-- The next argument has to be a symbol, if there is one. -/
def hasSymbolIs (wanted : Text) : Run Call Bool := do
  match ← look with
  | none => return false
  | some t => return (← Run.ofExcept t.toSymbol) == wanted

/-- The next argument has to be a word, if there is one. -/
def hasWordIs (wanted : Text) : Run Call Bool := do
  match ← look with
  | none => return false
  | some t => return (← Run.ofExcept t.toWord) == wanted

def hasWordOf (wanted : List Text) : Run Call Bool := do
  match ← look with
  | some (.word t) => return wanted.contains (upper t)
  | _ => return false

def hasSymbolOf (wanted : List Text) : Run Call Bool := do
  match ← look with
  | some (.symbol t) => return wanted.contains t
  | _ => return false

def syntaxError {α : Type} (reason : Text) : Run Call α := throw (.syntaxError reason)

end Call

/-- The comparisons of a condition. -/
inductive Comparison where
  | equal | greater | less | unequal
  deriving DecidableEq, Repr

namespace Comparison

def symbols : List Text := [['='], ['>'], ['<'], ['!']]

def holds (c : Comparison) (a b : Int) : Bool :=
  match c with
  | equal => decide (a = b)
  | greater => decide (a > b)
  | less => decide (a < b)
  | unequal => decide (a ≠ b)

def ofSymbol : Text → Comparison
  | ['='] => equal
  | ['>'] => greater
  | ['<'] => less
  | _ => unequal

end Comparison

/-- The operators of an expression. -/
inductive Operator where
  | add | subtract | multiply | divide | remainder
  deriving DecidableEq, Repr

namespace Operator

def symbols : List Text := [['+'], ['-'], ['*'], ['/'], ['%']]

/-- Division rounds down, and the remainder has the sign of the divisor. -/
def apply (op : Operator) (a b : Int) : Except Fault Int :=
  match op with
  | add => .ok (a + b)
  | subtract => .ok (a - b)
  | multiply => .ok (a * b)
  | divide => if b = 0 then .error .divisionByZero else .ok (a.fdiv b)
  | remainder => if b = 0 then .error .remainderByZero else .ok (a.fmod b)

def ofSymbol : Text → Operator
  | ['+'] => add
  | ['-'] => subtract
  | ['*'] => multiply
  | ['/'] => divide
  | _ => remainder

end Operator

namespace Call

/-- A comparison of two numbers. -/
def condition : Run Call Bool := do
  let a ← nextNumeric
  let c ← nextSymbolOf Comparison.symbols
  let b ← nextNumeric
  return (Comparison.ofSymbol c).holds a b

/-- The upper bound on the arguments that can still be taken. -/
def argumentsLeft : Run Call Nat := do
  let a := (← get).args
  return (a.tokens.length - a.index).toNat

/-- Goes on with an expression whose value so far is `a`, from left to right. -/
def sumFrom (a : Int) : Nat → Run Call Int
  | 0 => pure a
  | n + 1 => do
    if ← hasSymbol then
      let op ← nextSymbolOf Operator.symbols
      let b ← nextNumeric
      sumFrom (← Run.ofExcept ((Operator.ofSymbol op).apply a b)) n
    else return a

/-- The value of an expression. -/
def sum : Run Call Int := do
  let a ← nextNumeric
  sumFrom a (← argumentsLeft)

def concatFrom (t : Text) : Nat → Run Call Text
  | 0 => pure t
  | n + 1 => do
    if ← hasSymbol then
      nextSymbolIs ['+']
      concatFrom (t ++ (← nextString)) n
    else return t

/-- Texts joined by plus signs. -/
def concat : Run Call Text := do
  let t ← nextString
  concatFrom t (← argumentsLeft)

end Call
end BasicMachine
