import BasicMachine.Text.Blank

/-! Text is a list of characters. This module has the number formats and paddings that the machine
writes. -/
namespace BasicMachine

abbrev Text := List Char

namespace Text

def ofNat (n : Nat) : Text := Nat.toDigits 10 n

def ofInt : Int → Text
  | .ofNat n => ofNat n
  | .negSucc n => '-' :: ofNat (n + 1)

/-- Zeros in front until the text has `width` characters. -/
def zeroPad (width : Nat) (t : Text) : Text := List.replicate (width - t.length) '0' ++ t

/-- Hexadecimal with at least `width` places; a minus sign takes up one of them. -/
def hex (width : Nat) : Int → Text
  | .ofNat n => zeroPad width (Nat.toDigits 16 n)
  | .negSucc n => '-' :: zeroPad (width - 1) (Nat.toDigits 16 (n + 1))

/-- Two hexadecimal places for every byte. -/
def hexBytes (bs : List UInt8) : Text := bs.flatMap fun b => hex 2 b.toNat

/-- Spaces behind until the text has `width` characters. -/
def padRight (width : Nat) (t : Text) : Text := t ++ List.replicate (width - t.length) ' '

theorem length_padRight (width : Nat) (t : Text) :
    (padRight width t).length = max width t.length := by
  simp [padRight]; omega

/-- The pieces between the separators. There is always at least one piece. -/
def splitAt (sep : Char) : Text → List Text
  | [] => [[]]
  | c :: rest =>
    if c = sep then [] :: splitAt sep rest
    else match splitAt sep rest with
      | [] => [[c]]
      | piece :: pieces => (c :: piece) :: pieces

theorem splitAt_ne_nil (sep : Char) (t : Text) : splitAt sep t ≠ [] := by
  cases t with
  | nil => simp [splitAt]
  | cons c rest =>
    simp only [splitAt]
    split
    · simp
    · split <;> simp

/-- The texts joined with `sep` between neighbours. -/
def join (sep : Text) (ts : List Text) : Text := (ts.intersperse sep).flatten

end Text
end BasicMachine
