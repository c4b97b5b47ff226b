import BasicMachine.Keyboard
import BasicMachine.Variable

/-! Dialogs: a message with a button, and a list to choose from. They work on every display that can
fill areas, print, and wait for keys. -/
namespace BasicMachine

/-- A display that dialogs can be shown on. -/
class Display (δ : Type) where
  hideCursor : Run δ Unit
  showCursor : Run δ Unit
  moveCursor : Position → Run δ Unit
  printIn : ColourPair → Text → Run δ Unit
  fillArea : Area → ColourPair → Run δ Unit
  waitKey : Run δ Int
  /-- The keys that can be read before waiting would fail. -/
  keysReady : Run δ Nat
  colour : Text → Run δ ColourPair

namespace Dialog

variable {δ : Type} [Display δ]

open Display

def innerColour : Run δ ColourPair := colour "dialog_inner".toList

def selectColour : Run δ ColourPair := colour "dialog_select".toList

def outerColour : Run δ ColourPair := colour "dialog_outer".toList

/-- Waits for the enter key, at most `n` keys and one more. -/
def waitEnter : Nat → Run δ Unit
  | 0 => do let _ ← waitKey; return
  | n + 1 => do
    if (← waitKey) = enterKey then return
    waitEnter n

namespace Message

def box : Area := ⟨⟨19, 9⟩, ⟨61, 16⟩⟩

def button : Text := "   OK   ".toList

def buttonPlace : Position := ⟨36, 14⟩

end Message

/-- Shows a message until the enter key is pressed. -/
def alert (message : Text) : Run δ Unit := do
  let outer ← outerColour
  let inner ← innerColour
  hideCursor
  fillArea Message.box outer
  moveCursor ((Message.box.start.down 1).right 1)
  printIn outer message
  moveCursor Message.buttonPlace
  printIn inner Message.button
  waitEnter (← keysReady)
  showCursor

/-- A list with two lines of prompt above it. -/
structure Listbox where
  items : List Text
  prompt1 : Text
  prompt2 : Text
  /-- The first item on view. -/
  offset : Nat := 0
  /-- The selected line of the view. -/
  selected : Nat := 0
  deriving DecidableEq, Repr

namespace Listbox

def box : Area := ⟨⟨20, 2⟩, ⟨60, 23⟩⟩

def listArea : Area := ⟨⟨21, 6⟩, ⟨59, 22⟩⟩

/-- The lines that the selection moves over. -/
def lines : Nat := 14

def visible (b : Listbox) : List Text := (b.items.drop b.offset).take (lines + 1)

def up (b : Listbox) : Listbox :=
  if b.selected = 0 then { b with offset := b.offset - 1 }
  else { b with selected := b.selected - 1 }

def down (b : Listbox) : Listbox :=
  if b.selected + 1 = lines then
    if b.offset + lines < b.items.length then { b with offset := b.offset + 1 } else b
  else { b with selected := b.selected + 1 }

def choice (b : Listbox) : Nat := b.selected + b.offset + 1

structure Colours where
  list : ColourPair
  selection : ColourPair
  box : ColourPair

def drawItems (b : Listbox) (c : Colours) : Nat → List Text → Run δ Unit
  | _, [] => pure ()
  | i, item :: rest => do
    moveCursor (((listArea.start.down 1).right 1).down i)
    printIn (if i = b.selected then c.selection else c.list) (Text.padRight 36 item)
    drawItems b c (i + 1) rest

def draw (b : Listbox) (c : Colours) : Run δ Unit := do
  fillArea box c.box
  fillArea listArea c.list
  let place := (box.start.down 1).right 1
  moveCursor place
  printIn c.box b.prompt1
  moveCursor (place.down 1)
  printIn c.box b.prompt2
  drawItems b c 0 b.visible

/-- Follows the keys to the choice: zero for escape, and the number of the item for enter. -/
def follow (c : Colours) (b : Listbox) : Nat → Run δ Nat
  | 0 => do let _ ← waitKey; return 0
  | n + 1 => do
    let k ← waitKey
    if k = 1 then
      b.up.draw c
      follow c b.up n
    else if k = 2 then
      b.down.draw c
      follow c b.down n
    else if k = enterKey then return b.choice
    else if k = escapeKey then return 0
    else follow c b n

end Listbox

/-- Shows a list and gives the number of the chosen item, or zero. -/
def choose (items : List Text) (prompt1 prompt2 : Text) : Run δ Nat := do
  let list ← innerColour
  let selection ← selectColour
  let box ← outerColour
  let c : Listbox.Colours := ⟨list, selection, box⟩
  let b : Listbox := { items, prompt1, prompt2 }
  hideCursor
  b.draw c
  Listbox.follow c b (← keysReady)

def filePrompt1 : Text := "Please select a file using the cursor".toList

def filePrompt2 : Text := "keys from the list below...".toList

end Dialog

namespace Machine

def showCursor (on : Bool) : Action Unit := changeScreen fun s => { s with cursorVisible := on }

instance : Display Machine where
  hideCursor := showCursor false
  showCursor := showCursor true
  moveCursor p := changeScreen (·.moveCursor p)
  printIn := printIn
  fillArea a p := onScreen (Screen.fill a ' ' p)
  waitKey := waitKey
  keysReady := do return (← get).keys.length
  colour name := ask (colour · name)

/-- The item with a number counted from one. -/
def itemAt (items : List Text) (n : Nat) : Except Fault Text :=
  match items[n - 1]? with
  | some t => .ok t
  | none => .error .noSuchItem

/-- Reads the disk again and lets the user choose a file; the empty text is no choice. -/
def chooseFile : Action Text := do
  onDisk Disk.refresh
  let files := (← get).disk.shortNames
  let n ← Dialog.choose files Dialog.filePrompt1 Dialog.filePrompt2
  if n = 0 then return [] else Run.ofExcept (itemAt files n)

end Machine
end BasicMachine
