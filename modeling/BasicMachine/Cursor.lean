import BasicMachine.Position

/-! The text cursor. It stays inside its limits; running off the last row leaves it there and asks for
scrolling from then on. -/
namespace BasicMachine

structure Cursor where
  limit : Position
  col : Int := 0
  row : Int := 0
  /-- The number of the cell in reading order. -/
  offset : Int := 0
  needScroll : Bool := false
  deriving DecidableEq, Repr

namespace Cursor

def position (c : Cursor) : Position := ⟨c.col, c.row⟩

/-- Counts the offset anew from the row and the column. -/
def fixOffset (c : Cursor) : Cursor := { c with offset := c.row * c.limit.col + c.col }

def clamp (limit n : Int) : Int := if n < 0 then 0 else if n ≥ limit then limit - 1 else n

def move (c : Cursor) (p : Position) : Cursor :=
  { c with col := clamp c.limit.col p.col, row := clamp c.limit.row p.row }.fixOffset

def newline (c : Cursor) : Cursor :=
  if c.row + 1 ≥ c.limit.row then
    { c with col := 0, row := c.limit.row - 1, needScroll := true }.fixOffset
  else { c with col := 0, row := c.row + 1 }.fixOffset

def advance (c : Cursor) : Cursor :=
  let c' := { c with col := c.col + 1, offset := c.offset + 1 }
  if c'.col ≥ c.limit.col then c'.newline else c'

def onLastLine (c : Cursor) : Bool := c.row == c.limit.row - 1

def onLastColumn (c : Cursor) : Bool := c.col == c.limit.col - 1

end Cursor
end BasicMachine
