import BasicMachine.Bank
import BasicMachine.Clock
import BasicMachine.Colour
import BasicMachine.Cursor
import BasicMachine.Memory

/-! The text screen: 25 rows of 80 cells and a cursor. A cell is stale from a change of it until the
window is drawn again. -/
namespace BasicMachine

/-- Light grey on black. -/
def plainColour : ColourPair := ⟨.lightGrey, .black⟩

structure Cell where
  char : Char := ' '
  colour : ColourPair := plainColour
  /-- The cursor is drawn in the cell. -/
  marked : Bool := false
  stale : Bool := true
  deriving DecidableEq, Repr

namespace Cell

def put (c : Char) (p : ColourPair) (cell : Cell) : Cell := { cell with char := c, colour := p, stale := true }

def mark (on : Bool) (cell : Cell) : Cell := { cell with marked := on, stale := true }

end Cell

structure Screen where
  cells : Bank Cell := Bank.replicate 2000 {}
  cursor : Cursor := { limit := ⟨80, 25⟩ }
  /-- The colour of text that is printed without a colour of its own. -/
  colour : ColourPair := plainColour
  cursorVisible : Bool := true
  cursorBlinks : Bool := true
  /-- The cursor is drawn at the moment. -/
  cursorDrawn : Bool := false
  windowOpen : Bool := false
  flips : Nat := 0
  closed : Bool := false

namespace Screen

def columns : Nat := 80

def rows : Nat := 25

def modifyCell (s : Screen) (i : Nat) (f : Cell → Cell) : Screen :=
  { s with cells := s.cells.set i (f (s.cells.get i)) }

/-- The number of the cell under the cursor. -/
def here (s : Screen) : Nat := s.cursor.offset.toNat

def drawMark (s : Screen) (on : Bool) : Screen :=
  if on = s.cursorDrawn then s
  else { s.modifyCell s.here (Cell.mark on) with cursorDrawn := on }

def moveCursor (s : Screen) (p : Position) : Screen :=
  let s := s.drawMark false
  { s with cursor := s.cursor.move p }

def advanceCursor (s : Screen) : Screen :=
  let s := s.drawMark false
  { s with cursor := s.cursor.advance }

/-- The cell with the character and colour of another, and its own mark. -/
def copyCell (source cell : Cell) : Cell := cell.put source.char source.colour

/-- Rewrites the cells of row `y` from left to right, each by what the cells hold by then. -/
@[irreducible] def rewriteRow (f : Bank Cell → Nat → Cell) (cells : Bank Cell) (y : Nat) : Bank Cell :=
  (List.range columns).foldl
    (fun cells x => cells.set (y * columns + x) (f cells (y * columns + x))) cells

/-- The cell with the look of the one below it. -/
def raised (cells : Bank Cell) (i : Nat) : Cell := copyCell (cells.get (i + columns)) (cells.get i)

/-- The cell as a blank. -/
def blanked (p : ColourPair) (cells : Bank Cell) (i : Nat) : Cell := (cells.get i).put ' ' p

/-- Copies every row but the first over the one above it, from the top down, and blanks the last one. -/
def scroll (s : Screen) : Screen :=
  let cells := (List.range (rows - 1)).foldl (rewriteRow raised) s.cells
  { s with cells := rewriteRow (blanked s.colour) cells (rows - 1) }

def newline (s : Screen) : Screen :=
  let s := s.drawMark false
  let s := { s with cursor := s.cursor.newline }
  if s.cursor.needScroll then s.scroll else s

def putChar (p : ColourPair) (s : Screen) (c : Char) : Screen :=
  if c = '\n' then s.newline
  else (s.modifyCell s.here (Cell.put c p)).advanceCursor

def print (s : Screen) (t : Text) (p : ColourPair) : Screen := t.foldl (putChar p) s

def clear (s : Screen) : Screen :=
  moveCursor { s with cells := s.cells.map (Cell.put ' ' s.colour) } ⟨0, 0⟩

/-- The number of the cell at a position; the rows follow each other. -/
def cellAt (s : Screen) (p : Position) : Except Fault Nat :=
  place .noSuchItem s.cells.size (p.row * columns + p.col)

/-- Fills `n` cells from a position on, up to the first that is off the screen. -/
def fillRow (c : Char) (p : ColourPair) (start : Position) : Nat → Run Screen Unit
  | 0 => pure ()
  | n + 1 => do
    let s ← get
    let i ← Run.ofExcept (s.cellAt start)
    set (s.modifyCell i (Cell.put c p))
    fillRow c p (start.right 1) n

/-- Fills `n` rows of `width` cells below each other. -/
def fillRows (c : Char) (p : ColourPair) (width : Nat) (start : Position) : Nat → Run Screen Unit
  | 0 => pure ()
  | n + 1 => do
    fillRow c p start width
    fillRows c p width (start.down 1) n

/-- Fills an area row by row. -/
def fill (a : Area) (c : Char) (p : ColourPair) : Run Screen Unit :=
  fillRows c p (a.width + 1).toNat a.start (a.height + 1).toNat

/-- The cell at the cursor's row and column. -/
def cursorCell (s : Screen) : Cell := s.cells.get (s.cursor.row * columns + s.cursor.col).toNat

/-- Draws or wipes the cursor as visibility and blinking ask. -/
def drawCursor (s : Screen) (clock : Clock) : Screen :=
  s.drawMark (s.cursorVisible && !(s.cursorBlinks && clock.isDark))

/-- Draws every cell; the window shows the result if any cell was stale. -/
def update (s : Screen) (clock : Clock) : Screen :=
  let s := s.drawCursor clock
  let changed := s.cells.toList.any (·.stale)
  { s with
    cells := s.cells.map fun cell => { cell with stale := false }
    flips := if s.windowOpen && changed then s.flips + 1 else s.flips }

/-- The cells of a row, from left to right. -/
def row (s : Screen) (n : Nat) : List Cell := s.cells.slice (n * columns) columns

/-- The text of a row without the blanks at its end. -/
def rowText (s : Screen) (n : Nat) : Text :=
  (((s.row n).map (·.char)).reverse.dropWhile (· == ' ')).reverse

/-- Equal neighbours counted together. -/
def runLengths {α : Type} [DecidableEq α] : List α → List (Nat × α)
  | [] => []
  | a :: rest => match runLengths rest with
    | (n, b) :: more => if a = b then (n + 1, b) :: more else (1, a) :: (n, b) :: more
    | [] => [(1, a)]

/-- The colours of a row with how many cells in turn have each. -/
def rowColours (s : Screen) (n : Nat) : List (Nat × ColourPair) :=
  runLengths ((s.row n).map (·.colour))

/-- The numbers of the cells that show the cursor's mark. -/
def markedCells (s : Screen) : List Nat :=
  (List.range s.cells.size).filter fun i => (s.cells.get i).marked

end Screen
end BasicMachine
