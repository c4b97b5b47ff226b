import BasicMachine.Run
import BasicMachine.Text.Numeric
import BasicMachine.Text.Upper

/-! Short file names: a base of up to eight characters and an extension of up to three. Whatever does
not fit is dropped or replaced, and a number behind a tilde keeps such names apart. -/
namespace BasicMachine.ShortName

/-- The punctuation that a short name may hold. -/
def punctuation : List Char := "$%'-_@~!()^#&\x60\x7b\x7d".toList

def isValidChar (c : Char) : Bool :=
  isAlphanumeric c || punctuation.contains c || c == '.' || (127 < c.toNat && c.toNat < 256)

/-- Upper case without spaces and without dots in front. -/
def canonical (name : Text) : Text :=
  ((upper name).filter (· != ' ')).dropWhile (· == '.')

/-- The canonical name with underscores for the characters that are not valid, and whether there were
any. -/
def sanitize (name : Text) : Text × Bool :=
  let t := canonical name
  (t.map fun c => if isValidChar c then c else '_', t.any fun c => !isValidChar c)

/-- The first eight characters in front of the first dot, and whether there were more. -/
def base (name : Text) : Text × Bool :=
  let stem := name.takeWhile (· != '.')
  (stem.take 8, stem.length > 8)

/-- The last dot with up to three characters behind it, unless it ends the name. -/
def extension (name : Text) : Text :=
  if name.contains '.' then
    match (name.reverse.takeWhile (· != '.')).reverse with
    | [] => []
    | after => '.' :: after.take 3
  else []

/-- The base with the tail `~i` written over its end. -/
def withTail (base : Text) (i : Nat) : Text :=
  let tail := '~' :: Text.ofNat i
  base.take (8 - tail.length) ++ tail

/-- The first free tail among the `n` numbers from `i` on. -/
def firstFree (base ext : Text) (existing : List Text) : Nat → Nat → Except Fault Text
  | _, 0 => .error .noShortName
  | i, n + 1 =>
    if existing.contains (withTail base i ++ ext) then firstFree base ext existing (i + 1) n
    else .ok (withTail base i)

/-- The base itself when nothing was lost and the name is new, and else the base with a tail. -/
def uniqueBase (base ext : Text) (existing : List Text) (lossy tooLong : Bool) :
    Except Fault Text :=
  if !lossy && !tooLong && !existing.contains (base ++ ext) && !base.isEmpty then .ok base
  else firstFree base ext existing 1 999999

/-- The short name of a file among the existing names. -/
def ofName (name : Text) (existing : List Text) : Except Fault Text := do
  let (clean, lossy) := sanitize name
  let (stem, tooLong) := base clean
  let ext := extension clean
  return (← uniqueBase stem ext existing lossy tooLong) ++ ext

/-- Short names for a list of files, each new among those before it. -/
def assign (taken : List Text) : List Text → Except Fault (List (Text × Text))
  | [] => .ok []
  | name :: rest => do
    let short ← ofName name taken
    let others ← assign (taken ++ [short]) rest
    return (name, short) :: others

end BasicMachine.ShortName
