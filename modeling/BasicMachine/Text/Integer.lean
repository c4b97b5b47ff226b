import BasicMachine.Text.Basic
import BasicMachine.Text.Numeric

/-! Integers written as text: blanks around, an optional sign, and decimal digits of any script with
single underscores between them. -/
namespace BasicMachine.Text

/-- The blanks that may stand around an integer; the four separator controls are not among them. -/
def isNumberBlank (c : Char) : Bool := isBlank c && !(28 ≤ c.toNat && c.toNat ≤ 31)

/-- The longest integer text that is read. -/
def digitLimit : Nat := 4300

/-- The digits behind a digit: the value so far and the number of digits so far go in. -/
def readDigits? (value count : Nat) : Text → Option (Nat × Nat)
  | [] => some (value, count)
  | '_' :: c :: rest => (digitValue? c).bind fun d => readDigits? (value * 10 + d) (count + 1) rest
  | c :: rest => (digitValue? c).bind fun d => readDigits? (value * 10 + d) (count + 1) rest

def readNatural? : Text → Option Nat
  | [] => none
  | c :: rest => do
    let d ← digitValue? c
    let (value, count) ← readDigits? d 1 rest
    if count ≤ digitLimit then some value else none

def readInteger? (t : Text) : Option Int :=
  match trimBoth isNumberBlank t with
  | '-' :: rest => (readNatural? rest).map fun n => -n
  | '+' :: rest => (readNatural? rest).map Int.ofNat
  | rest => (readNatural? rest).map Int.ofNat

end BasicMachine.Text
