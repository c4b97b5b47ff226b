import BasicMachine.Dialog

/-! A display on a character terminal. It keeps no picture of its own: all it does is to call the
terminal, and the calls are kept in order. -/
namespace BasicMachine

inductive TerminalCall where
  | resize (rows cols : Int)
  | startColour
  | useDefaultColours
  | showCursor (level : Int)
  | noEcho
  | breakMode (on : Bool)
  | endWindow
  | initPair (pair text background : Int)
  | scrollOk (on : Bool)
  | keypad (on : Bool)
  | noDelay (on : Bool)
  | move (row col : Int)
  | addText (t : Text) (style : Int)
  | insertText (row col : Int) (t : Text) (style : Int)
  | scroll
  | clear
  | refresh
  deriving DecidableEq, Repr

structure Terminal where
  rows : Int := 25
  cols : Int := 80
  /-- The place where the next text goes. -/
  row : Int := 0
  col : Int := 0
  /-- What the terminal answers when asked for the cell at that place. -/
  cell : Int := 32
  keys : List Int := []
  noDelay : Bool := false
  palette : List (Text × ColourPair) := Palette.initial
  colour : ColourPair := plainColour
  closed : Bool := false
  /-- The calls made so far, the newest first. -/
  called : List TerminalCall := []

namespace Terminal

def calls (t : Terminal) : List TerminalCall := t.called.reverse

def call (c : TerminalCall) : Run Terminal Unit := modify fun t => { t with called := c :: t.called }

/-- The terminal's numbers of its eight colours, in the order of the machine's colours. -/
def colourNumbers : List Nat := [0, 4, 2, 6, 1, 5, 3, 7]

/-- The colours of the machine in the order of the terminal's numbers. -/
def colourOrder : List Colour := [
  .black, .red, .green, .brown, .blue, .magenta, .cyan, .lightGrey]

def style (p : ColourPair) : Int := p.terminalPair * 256

def moveTo (row col : Int) : Run Terminal Unit := do
  call (.move row col)
  modify fun t => { t with row, col }

def fillArea (p : ColourPair) : Run Terminal Unit := do
  call (.scrollOk false)
  let t ← get
  let blank := List.replicate t.cols.toNat ' '
  (List.range (t.rows - 1).toNat).forM fun i => call (.insertText i 0 blank (style p))
  call (.scrollOk true)

def setColour (p : ColourPair) : Run Terminal Unit := modify fun t => { t with colour := p }

def initPairs : Run Terminal Unit :=
  colourNumbers.zipIdx.forM fun (background, i) =>
    colourNumbers.zipIdx.forM fun (text, j) => call (.initPair (i * 8 + j + 1) text background)

/-- Sets the terminal up. -/
def start : Run Terminal Unit := do
  call (.resize 25 80)
  call .startColour
  call .useDefaultColours
  call (.showCursor 0)
  call .noEcho
  call (.breakMode true)
  call (.scrollOk true)
  call (.keypad true)
  initPairs
  fillArea plainColour
  moveTo 0 0
  setColour plainColour

/-- A terminal that is set up. It has no file dialog of its own and has to be given one. -/
def create (hasFileDialog : Bool) (t : Terminal) : Except Fault Terminal :=
  if hasFileDialog then .ok (start.run t).2 else .error .incompleteTerminal

def scroll : Run Terminal Unit := call .scroll

/-- On the last row the terminal scrolls, and the place goes below it. -/
def newline : Run Terminal Unit := do
  let t ← get
  if t.row + 1 ≥ t.rows then
    scroll
    moveTo t.rows 0
  else moveTo (t.row + 1) 0

def advance : Run Terminal Unit := do
  let t ← get
  if t.col + 1 ≥ t.cols then newline else moveTo t.row (t.col + 1)

/-- Every text is printed in the colour of the display. -/
def print (text : Text) : Run Terminal Unit := do
  call (.addText text (style (← get).colour))
  modify fun t => { t with col := t.col + text.length }

def position (t : Terminal) : Position := ⟨t.col, t.row⟩

def charHere (t : Terminal) : Char := Char.ofNat (t.cell % 256).toNat

def colourNumbered (n : Int) : Except Fault Colour :=
  if n < 0 then .error (.terminalColour n)
  else match colourOrder[n.toNat]? with
    | some c => .ok c
    | none => .error (.terminalColour n)

/-- The attributes of the cell without their low byte, taken as a pair of colour numbers from one on. -/
def colourHere (t : Terminal) : Except Fault ColourPair := do
  let attributes := t.cell / 256 % 0x100000000 / 256 * 256
  return ⟨← colourNumbered (attributes % 8 + 1), ← colourNumbered (attributes / 8 + 1)⟩

/-- The next key code. With none left, the answer is -1 if the terminal does not wait. -/
def getKey : Run Terminal Int := do
  let t ← get
  match t.keys with
  | k :: rest =>
    set { t with keys := rest }
    return k
  | [] => if t.noDelay then return -1 else throw .interrupted

/-- An arrow key is a small number. For any other key the code behind it counts. -/
def readKey (wait : Bool) : Run Terminal Int := do
  call (.noDelay !wait)
  modify fun t => { t with noDelay := !wait }
  let k ← getKey
  if k = -1 then return 0
  else if k = 259 then return 1
  else if k = 258 then return 2
  else if k = 260 then return 3
  else if k = 261 then return 4
  else return (← getKey) % 256

def readTyped (typed : Text) : Nat → Run Terminal Text
  | 0 => do
    let _ ← readKey true
    return typed
  | n + 1 => do
    let k ← readKey true
    if k = enterKey then return typed
    let c ← Run.ofExcept (charOfCode k)
    if isTypable c then
      print [c]
      readTyped (typed ++ [c]) n
    else readTyped typed n

def readText (prompt : Text) : Run Terminal Text := do
  if prompt ≠ [] then print prompt
  let t ← readTyped [] (← get).keys.length
  newline
  return t

def finish : Run Terminal Unit := do
  call (.breakMode false)
  call (.keypad false)
  call .noEcho
  call .endWindow

instance : Display Terminal where
  hideCursor := call (.showCursor 0)
  showCursor := call (.showCursor 1)
  moveCursor p := moveTo p.row p.col
  printIn _ t := print t
  fillArea _ p := fillArea p
  waitKey := readKey true
  keysReady := do return (← get).keys.length
  colour name := do
    match (← get).palette.lookup name with
    | some p => return p
    | none => throw (.undefinedColour name)

end Terminal
end BasicMachine
