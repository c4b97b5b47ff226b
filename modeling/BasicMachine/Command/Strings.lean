import BasicMachine.Command.Basic
import BasicMachine.Keyboard
import BasicMachine.Text.Lower

/-! Commands for the contents of string variables. -/
namespace BasicMachine.Command

open Call

def runCase : Routine := do
  let keyword ← nextWordOf ["UPPER".toList, "LOWER".toList]
  let name ← nextStringVar
  let t ← Machine.ask (Machine.string · name)
  Machine.setString name (if keyword = "UPPER".toList then upper t else lower t)

def runLength : Routine := do
  let t ← nextString
  putNumeric t.length

/-- A text becomes a number and a number becomes a text. -/
def runNumber : Routine := do
  expectArguments 2
  if ← hasString then
    let t ← nextString
    match Text.readInteger? t with
    | some n => putNumeric n
    | none => syntaxError ("Invalid number: \"".toList ++ t ++ ['"'])
  else if ← hasNumeric then
    let n ← nextNumeric
    putString (Text.ofInt n)

/-- The text with the character at an offset replaced. -/
def replaceChar (t : Text) (offset : Int) (c : Char) : Text :=
  takeTo offset t ++ [c] ++ dropTo (offset + 1) t

def runString : Routine := do
  let name ← nextStringVar
  let t ← Machine.ask (Machine.string · name)
  let offset ← nextNumeric
  let v ← nextNumeric
  let c ← Run.ofExcept (charOfCode v)
  Machine.setString name (replaceChar t offset c)

end BasicMachine.Command
