import BasicMachine.Command.Basic
import BasicMachine.Dialog

/-! Commands for the screen, the cursor and the dialogs. -/
namespace BasicMachine.Command

open Call

/-- A text, a number, or a character by its code; a semicolon keeps the cursor on the line. -/
def runPrint : Routine := do
  expectArguments 1
  if ← hasString then Machine.print (← nextString)
  else if ← hasNumeric then Machine.print (Text.ofInt (← nextNumeric))
  else if ← hasWord then
    let keyword ← nextWordOf ["CHR".toList, "HEX".toList]
    let v ← nextNumeric
    if keyword = "CHR".toList then Machine.print [CodePage.decodeByte (Memory.byteOf v)]
    else throw .hexFormat
  else syntaxError "Invalid argument type for PRINT command.".toList
  if !(← hasSymbolIs [';']) then Machine.print ['\n']

def runClearScreen : Routine := do Machine.changeScreen Screen.clear

def runCursor : Routine := do
  let keyword ← nextWordOf ["ON".toList, "OFF".toList]
  Machine.showCursor (keyword == "ON".toList)

def runCursorChar : Routine := do
  let c := (← get).machine.screen.cursorCell.char
  match CodePage.encodeChar? c with
  | some b => putNumeric b.toNat
  | none => throw (.unencodable c)

def runCursorColour : Routine := do
  putNumeric (← get).machine.screen.cursorCell.colour.toNat

def runCursorPosition : Routine := do
  let p := (← get).machine.screen.cursor.position
  putNumeric p.col
  putNumeric p.row

def runInk : Routine := do
  let p ← Run.ofExcept (ColourPair.ofInt (← nextNumeric))
  Machine.setColour "text".toList p

def runMove : Routine := do
  let col ← nextNumeric
  let row ← nextNumeric
  Machine.changeScreen (·.moveCursor ⟨col, row⟩)

/-- The line is typed before the variable for it is looked at. -/
def runInput : Routine := do
  let t ← onMachine (Machine.readText [])
  if ← hasStringVar then putString t
  else if ← hasNumericVar then
    match Text.readInteger? t with
    | some n => putNumeric n
    | none => syntaxError "Invalid numeric input".toList
  else syntaxError "Invalid argument type for INPUT command.".toList

def runAlert : Routine := do
  let t ← nextString
  onMachine (Dialog.alert t)

def runListBox : Routine := do
  let items := Text.splitAt ',' (← nextString)
  let prompt1 ← nextString
  let prompt2 ← nextString
  let n ← onMachine (Dialog.choose items prompt1 prompt2)
  putNumeric n

/-- The files on offer are those of the last reading of the disk. -/
def runAskFile : Routine := do
  let files := (← get).machine.disk.shortNames
  let n ← onMachine (Dialog.choose files Dialog.filePrompt1 Dialog.filePrompt2)
  if n = 0 then putString []
  else putString (← Run.ofExcept (Machine.itemAt files n))

/-- Prints the names in full rows of five; what is left over is not shown. -/
def printRows : List Text → Action Unit
  | a :: b :: c :: d :: e :: rest => do
    [a, b, c, d, e].forM fun name => Machine.print (Text.padRight 15 name)
    Machine.newline
    printRows rest
  | _ => pure ()

def runFiles : Routine := do
  printRows (← get).machine.disk.shortNames

end BasicMachine.Command
