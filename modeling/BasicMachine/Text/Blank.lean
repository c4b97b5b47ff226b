import BasicMachine.Text.Ranges

/-! Blank characters and the removal of blanks around a text. -/
namespace BasicMachine

def blankRanges : List (Nat × Nat) := [
  (9, 13), (28, 32), (133, 133), (160, 160), (5760, 5760), (8192, 8202), (8232, 8233), (8239, 8239),
  (8287, 8287), (12288, 12288)]

def isBlank (c : Char) : Bool := inRanges blankRanges c.toNat

/-- The text without the characters of class `p` at either end. -/
def trimBoth (p : Char → Bool) (t : List Char) : List Char :=
  ((t.dropWhile p).reverse.dropWhile p).reverse

def strip (t : List Char) : List Char := trimBoth isBlank t

@[simp] theorem strip_nil : strip [] = [] := rfl

end BasicMachine
