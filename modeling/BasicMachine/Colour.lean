import BasicMachine.Run
import BasicMachine.Text.Upper

/-! The sixteen colours of text mode, and pairs of a text colour and a background. -/
namespace BasicMachine

inductive Colour where
  | black | blue | green | cyan | red | magenta | brown | lightGrey
  | darkGrey | lightBlue | lightGreen | lightCyan | lightRed | lightMagenta | yellow | white
  deriving DecidableEq, Repr

namespace Colour

/-- The colours in the order of their numbers. -/
def all : List Colour := [
  black, blue, green, cyan, red, magenta, brown, lightGrey,
  darkGrey, lightBlue, lightGreen, lightCyan, lightRed, lightMagenta, yellow, white]

def toNat : Colour → Nat
  | black => 0 | blue => 1 | green => 2 | cyan => 3
  | red => 4 | magenta => 5 | brown => 6 | lightGrey => 7
  | darkGrey => 8 | lightBlue => 9 | lightGreen => 10 | lightCyan => 11
  | lightRed => 12 | lightMagenta => 13 | yellow => 14 | white => 15

def ofInt (n : Int) : Except Fault Colour :=
  if n < 0 then .error (.notAColour n)
  else match all[n.toNat]? with
    | some c => .ok c
    | none => .error (.notAColour n)

@[simp] theorem ofInt_toNat (c : Colour) : ofInt c.toNat = .ok c := by cases c <;> rfl

theorem toNat_lt (c : Colour) : c.toNat < 16 := by cases c <;> decide

def name : Colour → Text
  | black => "BLACK".toList
  | blue => "BLUE".toList
  | green => "GREEN".toList
  | cyan => "CYAN".toList
  | red => "RED".toList
  | magenta => "MAGENTA".toList
  | brown => "BROWN".toList
  | lightGrey => "LIGHT_GREY".toList
  | darkGrey => "DARK_GREY".toList
  | lightBlue => "LIGHT_BLUE".toList
  | lightGreen => "LIGHT_GREEN".toList
  | lightCyan => "LIGHT_CYAN".toList
  | lightRed => "LIGHT_RED".toList
  | lightMagenta => "LIGHT_MAGENTA".toList
  | yellow => "YELLOW".toList
  | white => "WHITE".toList

def ofName? (t : Text) : Option Colour := all.find? fun c => c.name == t

/-- Red, green and blue on the screen. -/
def rgb : Colour → Nat × Nat × Nat
  | black => (0, 0, 0)
  | blue => (0, 0, 170)
  | green => (0, 170, 0)
  | cyan => (0, 170, 170)
  | red => (170, 0, 0)
  | magenta => (170, 0, 170)
  | brown => (170, 85, 0)
  | lightGrey => (170, 170, 170)
  | darkGrey => (85, 85, 85)
  | lightBlue => (85, 85, 255)
  | lightGreen => (85, 255, 85)
  | lightCyan => (85, 255, 255)
  | lightRed => (255, 85, 85)
  | lightMagenta => (255, 85, 255)
  | yellow => (255, 255, 85)
  | white => (255, 255, 255)

end Colour

structure ColourPair where
  text : Colour
  background : Colour
  deriving DecidableEq, Repr

namespace ColourPair

/-- One number for the pair: the background counts sixteenfold. -/
def toNat (p : ColourPair) : Nat := p.text.toNat + 16 * p.background.toNat

def ofInt (n : Int) : Except Fault ColourPair := do
  return ⟨← Colour.ofInt (n % 16), ← Colour.ofInt (n / 16)⟩

@[simp] theorem ofInt_toNat (p : ColourPair) : ofInt p.toNat = .ok p := by
  rcases p with ⟨t, b⟩
  cases t <;> cases b <;> rfl

def ofNumbers (text background : Int) : Except Fault ColourPair := do
  return ⟨← Colour.ofInt text, ← Colour.ofInt background⟩

/-- The pieces between the separators `, `. -/
def splitAtCommas : Text → List Text
  | [] => [[]]
  | ',' :: ' ' :: rest => [] :: splitAtCommas rest
  | c :: rest => match splitAtCommas rest with
    | [] => [[c]]
    | piece :: pieces => (c :: piece) :: pieces

/-- Reads a pair such as `White, red`. -/
def ofText (t : Text) : Except Fault ColourPair :=
  match splitAtCommas t with
  | [text, background] =>
    let text := upper (strip text)
    let background := upper (strip background)
    match Colour.ofName? text, Colour.ofName? background with
    | some a, some b => .ok ⟨a, b⟩
    | _, _ => .error (.unknownColours text background)
  | pieces => if pieces.length < 2 then .error (.fewColours pieces.length) else .error .manyColours

/-- The pair as it is shown in a listing of the palette. -/
def describe (p : ColourPair) : Text :=
  "PalettePair(text=".toList ++ entry p.text ++ ", bg=".toList ++ entry p.background ++ [')']
where
  entry (c : Colour) : Text :=
    "<Palette.".toList ++ c.name ++ ": ".toList ++ Text.ofNat c.toNat ++ ['>']

/-- The number of the pair among the 64 pairs of a terminal, which has eight colours. -/
def terminalPair (p : ColourPair) : Nat := p.background.toNat % 8 * 8 + p.text.toNat % 8 + 1

end ColourPair
end BasicMachine
