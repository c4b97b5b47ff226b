import BasicMachine.Run
import BasicMachine.Text.Numeric
import BasicMachine.Text.Upper

/-! Splitting a line into the parts that become its tokens. Spaces separate parts, quotes and character
literals keep their spaces, a symbol is a part of its own, and the first word `REM` turns the rest of
the line into one part. -/
namespace BasicMachine

structure Splitter where
  parts : List Text := []
  word : Text := []
  inQuote : Bool := false
  inChar : Bool := false
  inComment : Bool := false
  /-- The next character belongs to the word, whatever it is. -/
  glue : Bool := false
  deriving DecidableEq, Repr

namespace Splitter

def add (s : Splitter) (c : Char) : Splitter := { s with word := s.word ++ [c] }

/-- Ends the word. -/
def flush (s : Splitter) : Splitter := { s with parts := s.parts ++ [s.word], word := [] }

/-- The word so far begins a comment. -/
def atRemark (s : Splitter) : Bool := s.parts.isEmpty && upper s.word == ['R', 'E', 'M']

/-- A character at the start of a word. -/
def start (s : Splitter) (c : Char) : Splitter :=
  if c = '&' then { s.add c with glue := true }
  else if c = ' ' then s
  else s.add c

/-- A character behind the start of a word. -/
def extend (s : Splitter) (c : Char) : Splitter :=
  if c = ' ' then
    if s.glue then s
    else if s.atRemark then { s.add c with inComment := true }
    else s.flush
  else if isAlphanumeric c || s.glue then { s.add c with glue := false }
  else if c = ':' then (s.add c).flush
  else { s.flush with parts := s.parts ++ [s.word, [c]] }

def step (s : Splitter) (c : Char) : Except Fault Splitter :=
  if c = '\r' then .ok s
  else if s.inComment then .ok (s.add c)
  else if c = '"' then
    if s.inQuote then .ok { (s.add c).flush with inQuote := false }
    else .ok { s.add c with inQuote := true }
  else if s.inQuote then .ok (s.add c)
  else if c = '\'' then
    if s.inChar then .ok { (s.add c).flush with inChar := false }
    else .ok { s.add c with inChar := true }
  else if s.inChar then
    if s.word.length > 2 then .error .longCharacter else .ok (s.add c)
  else if s.word.isEmpty then .ok (s.start c)
  else .ok (s.extend c)

/-- The parts at the end of the line. -/
def finish (s : Splitter) : Except Fault (List Text) :=
  if s.inQuote then .error .unmatchedQuote
  else .ok (if s.word.isEmpty then s.parts else s.parts ++ [s.word])

end Splitter

/-- Feeds the characters of a line to the splitter. -/
def feed (s : Splitter) : List Char → Except Fault Splitter
  | [] => .ok s
  | c :: rest => match s.step c with
    | .ok s' => feed s' rest
    | .error e => .error e

def splitLine (line : Text) : Except Fault (List Text) := do
  (← feed {} (strip line)).finish

end BasicMachine
