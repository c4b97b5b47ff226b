import BasicMachine.Fault

/-! Places and areas on a screen, counted in columns and rows. -/
namespace BasicMachine

structure Position where
  col : Int
  row : Int
  deriving DecidableEq, Repr

namespace Position

def down (p : Position) (n : Int) : Position := { p with row := p.row + n }

def up (p : Position) (n : Int) : Position := { p with row := p.row - n }

def right (p : Position) (n : Int) : Position := { p with col := p.col + n }

def left (p : Position) (n : Int) : Position := { p with col := p.col - n }

end Position

/-- The area between two corners, both included. -/
structure Area where
  start : Position
  stop : Position
  deriving DecidableEq, Repr

namespace Area

def width (a : Area) : Int := a.stop.col - a.start.col

def height (a : Area) : Int := a.stop.row - a.start.row

end Area
end BasicMachine
