import BasicMachine.Keyword

/-! The readings of a token as the argument of a command. -/
namespace BasicMachine.Token

/-- The character behind the opening quote, as its byte. -/
def charCode (t : Text) : Except Fault Int :=
  match t[1]? with
  | none => .error .emptyText
  | some c => match CodePage.encodeChar? c with
    | some b => .ok b.toNat
    | none => .error (.unencodable c)

/-- The token as a number. A reference to a string variable is its address. -/
def toNumeric (m : Machine) : Token → Except Fault Int
  | number n => .ok n
  | numericVar name => do return (← m.numeric name : Nat)
  | stringRef name => stringAddress (name.drop 1)
  | char t => charCode t
  | word t => match Keyword.ofName? t with
    | some k => .ok (k.value m)
    | none => .error .unknownNumericKeyword
  | _ => .error (.unexpectedToken .numeric)

/-- The token as a text. A quote loses its quotes. -/
def toString (m : Machine) : Token → Except Fault Text
  | quote t => .ok (t.drop 1).dropLast
  | stringVar name => m.string name
  | _ => .error (.unexpectedToken .string)

def toNumericVar : Token → Except Fault Text
  | numericVar name => .ok name
  | _ => .error (.unexpectedToken .numericVariable)

def toStringVar : Token → Except Fault Text
  | stringVar name => .ok name
  | _ => .error (.unexpectedToken .stringVariable)

/-- Words do not depend on case. -/
def toWord : Token → Except Fault Text
  | word t => .ok (upper t)
  | _ => .error (.unexpectedToken .word)

def toSymbol : Token → Except Fault Text
  | symbol t => .ok t
  | _ => .error (.unexpectedToken .symbol)

/-- The token as a place in the program: a label, a word that is a label, or a keyword. -/
def toAddress (m : Machine) : Token → Except Fault Int
  | label t => do return (← m.labelAddress t.dropLast : Nat)
  | word t => match Keyword.ofName? t with
    | some k => .ok (k.value m)
    | none => do return (← m.labelAddress t : Nat)
  | _ => .error (.unexpectedToken .label)

/-- The written form of the token; a number has none. -/
def text : Token → Text
  | word t | quote t | symbol t | comment t | numericVar t | stringVar t | stringRef t | label t
  | char t => t
  | number _ => []

/-- The label as it is written and its address. A keyword is not a label. -/
def toLabel (m : Machine) (token : Token) : Except Fault (Text × Int) :=
  match token with
  | word t =>
    if (Keyword.ofName? t).isSome then .error (.unexpectedToken .label)
    else do return (t, ← token.toAddress m)
  | _ => do return (token.text, ← token.toAddress m)

def isString : Token → Bool
  | quote _ | stringVar _ => true
  | _ => false

def isNumeric : Token → Bool
  | number _ | numericVar _ | stringRef _ | char _ => true
  | word t => (Keyword.ofName? t).isSome
  | _ => false

def isNumericVar : Token → Bool
  | numericVar _ => true
  | _ => false

def isStringVar : Token → Bool
  | stringVar _ => true
  | _ => false

def isSymbol : Token → Bool
  | symbol _ => true
  | _ => false

def isWord : Token → Bool
  | word _ => true
  | _ => false

end BasicMachine.Token
