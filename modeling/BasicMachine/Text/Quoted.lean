import BasicMachine.Text.Basic
import BasicMachine.Text.Printable

/-! Quoted texts, as they appear in a listing of allowed words. -/
namespace BasicMachine.Text

/-- The single quote, unless it occurs in the text and the double quote does not. -/
def quoteFor (t : Text) : Char := if t.contains '\'' && !t.contains '"' then '"' else '\''

/-- A code point by its number, in the shortest of the three escapes that holds it. -/
def escapeCode (n : Nat) : Text :=
  if n < 0x100 then '\\' :: 'x' :: hex 2 n
  else if n < 0x10000 then '\\' :: 'u' :: hex 4 n
  else '\\' :: 'U' :: hex 8 n

def escapeChar (quote c : Char) : Text :=
  if c = quote ∨ c = '\\' then ['\\', c]
  else if c = '\t' then ['\\', 't']
  else if c = '\n' then ['\\', 'n']
  else if c = '\r' then ['\\', 'r']
  else if isPrintable c then [c]
  else escapeCode c.toNat

def quoted (t : Text) : Text :=
  quoteFor t :: t.flatMap (escapeChar (quoteFor t)) ++ [quoteFor t]

/-- The quoted texts between square brackets. -/
def listing (ts : List Text) : Text := '[' :: join [',', ' '] (ts.map quoted) ++ [']']

end BasicMachine.Text
