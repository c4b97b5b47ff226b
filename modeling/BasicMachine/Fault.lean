import BasicMachine.Text.Quoted

/-! Causes of failure, and the wording of each. -/
namespace BasicMachine

/-- The written forms that a piece of a line can fail to have. -/
inductive TokenForm where
  | string | number | quote | numericVar | word | reference | label | character
  deriving DecidableEq, Repr

def TokenForm.name : TokenForm → Text
  | .string => "string".toList
  | .number => "number".toList
  | .quote => "quote".toList
  | .numericVar => "variable".toList
  | .word => "word".toList
  | .reference => "string reference".toList
  | .label => "label".toList
  | .character => "character".toList

/-- The readings that a token can fail to allow. -/
inductive Reading where
  | numeric | string | numericVariable | stringVariable | word | symbol | label
  deriving DecidableEq, Repr

def Reading.name : Reading → Text
  | .numeric => "numeric".toList
  | .string => "string".toList
  | .numericVariable => "numeric variable".toList
  | .stringVariable => "string variable".toList
  | .word => "word".toList
  | .symbol => "symbol".toList
  | .label => "label".toList

inductive Fault where
  -- reading a line
  | longCharacter
  | unmatchedQuote
  | malformed (form : TokenForm) (part : Text)
  | notADigit (c : Char)
  | emptyText
  -- reading a token
  | unknownNumericKeyword
  | unexpectedToken (reading : Reading)
  | unencodable (c : Char)
  -- reading arguments
  | notEnoughArguments
  | expected (wanted found : Text)
  | expectedOneOf (wanted : List Text) (found : Text)
  | syntaxError (reason : Text)
  | divisionByZero
  | remainderByZero
  -- names
  | nameLength (length : Nat)
  | invalidNumericVariable (name : Text)
  | invalidStringVariable (name : Text)
  | undefinedLabel (name : Text)
  | undefinedColour (name : Text)
  | invalidKeyword (name : Text)
  -- places and values
  | noSuchByte
  | noSuchItem
  | hugeIndex
  | noNewline
  | stringNotFound (text : Text)
  | byteRange
  | codePointRange
  | hugeCodePoint
  | emptyRange (low high : Int)
  | emptyStack
  | missingType
  | endOfData
  | hexFormat
  -- colours
  | notAColour (n : Int)
  | fewColours (n : Nat)
  | manyColours
  | unknownColours (text background : Text)
  | terminalColour (n : Int)
  -- commands and programs
  | noCommand
  | unknownCommand (name : Text)
  | endOfProgram
  | noInterpreter
  | endOfInput
  | closed
  | interrupted
  | endless
  -- disk
  | fileNotFound (name : Text)
  | noSuchFile
  | isFolder
  | notFolder
  | folderNotEmpty
  | intoItself
  | busy
  | nameTooLong
  | fileExists
  | hostRefused (reason : Text)
  | nullInName
  | noShortName
  -- sound and time
  | silence
  | negativeSamples (n : Int)
  | hugeQuotient
  | hugeFactor
  -- the terminal
  | incompleteTerminal
  deriving DecidableEq, Repr

namespace Fault

def message : Fault → Text
  | longCharacter => "Character literal too long".toList
  | unmatchedQuote => "Unmatched quote in line".toList
  | malformed form part =>
    "Invalid ".toList ++ form.name ++ " token: \"".toList ++ part ++ ['"']
  | notADigit c => "invalid literal for int() with base 10: ".toList ++ Text.quoted [c]
  | emptyText => "string index out of range".toList
  | unknownNumericKeyword => "Unknown numeric keyword".toList
  | unexpectedToken reading => "Expected ".toList ++ reading.name ++ " token".toList
  | unencodable c =>
    "'charmap' codec can't encode character '".toList ++ Text.escapeCode c.toNat ++
      "' in position 0: character maps to <undefined>".toList
  | notEnoughArguments => "Not enough arguments".toList
  | expected wanted found =>
    "Expected \"".toList ++ wanted ++ "\" but got \"".toList ++ found ++ ['"']
  | expectedOneOf wanted found =>
    "Expected one of \"".toList ++ Text.listing wanted ++ "\" but got \"".toList ++ found ++ ['"']
  | syntaxError reason => reason
  | divisionByZero => "integer division or modulo by zero".toList
  | remainderByZero => "integer modulo by zero".toList
  | nameLength length =>
    "ord() expected a character, but string of length ".toList ++ Text.ofNat length ++
      " found".toList
  | invalidNumericVariable name => "Invalid numeric variable: ".toList ++ name
  | invalidStringVariable name => "Invalid string variable: ".toList ++ name
  | undefinedLabel name => "Invalid label: ".toList ++ name
  | undefinedColour name => "Invalid runtime variable: COLOUR:".toList ++ name
  | invalidKeyword name => "Invalid keyword: ".toList ++ name
  | noSuchByte => "bytearray index out of range".toList
  | noSuchItem => "list index out of range".toList
  | hugeIndex => "cannot fit 'int' into an index-sized integer".toList
  | noNewline => "subsection not found".toList
  | stringNotFound text => "String not found: ".toList ++ text
  | byteRange => "byte must be in range(0, 256)".toList
  | codePointRange => "chr() arg not in range(0x110000)".toList
  | hugeCodePoint => "Python int too large to convert to C int".toList
  | emptyRange low high =>
    "empty range for randrange() (".toList ++ Text.ofInt low ++ ", ".toList ++
      Text.ofInt (high + 1) ++ ", ".toList ++ Text.ofInt (high + 1 - low) ++ [')']
  | emptyStack => "pop from empty list".toList
  | missingType => "list.remove(x): x not in list".toList
  | endOfData => "End of data block reached".toList
  | hexFormat => "not all arguments converted during string formatting".toList
  | notAColour n => Text.ofInt n ++ " is not a valid Palette".toList
  | fewColours n =>
    "not enough values to unpack (expected 2, got ".toList ++ Text.ofNat n ++ [')']
  | manyColours => "too many values to unpack (expected 2)".toList
  | unknownColours text background =>
    "Invalid colour: ".toList ++ text ++ ", ".toList ++ background ++
      " used in config file.".toList
  | terminalColour n => Text.ofInt n
  | noCommand => "Line does not contain a command or assignment.".toList
  | unknownCommand name => "Unknown command: \"".toList ++ name ++ ['"']
  | endOfProgram | closed | interrupted | endless => []
  | noInterpreter => "Command runner is not set.".toList
  | endOfInput => "EOF when reading a line".toList
  | fileNotFound name => "File not found: ".toList ++ name
  | noSuchFile => "No such file or directory".toList
  | isFolder => "Is a directory".toList
  | notFolder => "Not a directory".toList
  | folderNotEmpty => "Directory not empty".toList
  | intoItself => "Invalid argument".toList
  | busy => "Device or resource busy".toList
  | nameTooLong => "File name too long".toList
  | fileExists => "File exists".toList
  | hostRefused reason => reason
  | nullInName => "embedded null byte".toList
  | noShortName => "Unable to generate a unique SFN.".toList
  | silence => "zero-size array to reduction operation maximum which has no identity".toList
  | negativeSamples n =>
    "Number of samples, ".toList ++ Text.ofInt n ++ ", must be non-negative.".toList
  | hugeQuotient => "integer division result too large for a float".toList
  | hugeFactor => "int too large to convert to float".toList
  | incompleteTerminal =>
    "Can't instantiate abstract class CursesTextDisplay with abstract method show_file_dialog".toList

/-- The file asked for is not there. -/
def isMissingFile : Fault → Bool
  | fileNotFound _ | noSuchFile => true
  | _ => false

/-- The disk refused the request. -/
def isDiskFault : Fault → Bool
  | fileNotFound _ | noSuchFile | isFolder | notFolder | folderNotEmpty | intoItself | busy
  | nameTooLong | fileExists | hostRefused _ => true
  | _ => false

/-- To one who only asks what is there, the fault says that there is nothing. -/
def isAbsence : Fault → Bool
  | fileNotFound _ | noSuchFile | notFolder | nullInName => true
  | _ => false

end Fault
end BasicMachine
