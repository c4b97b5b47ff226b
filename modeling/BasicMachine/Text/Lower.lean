import BasicMachine.Text.CodePage

/-! Lower case of code page text. A capital sigma turns into the final form at the end of a word:
behind a cased character and not in front of one, where ignorable characters do not count. -/
namespace BasicMachine

/-- The capitals of the code page beyond ASCII with their lower case. -/
def lowerPairs : List (Nat × Nat) := [
  (199, 231), (196, 228), (197, 229), (201, 233), (198, 230), (214, 246), (220, 252), (209, 241),
  (915, 947), (931, 963), (934, 966), (920, 952), (937, 969)]

/-- The cased characters of the code page beyond ASCII. -/
def casedPoints : List Nat := [
  199, 252, 233, 226, 228, 224, 229, 231, 234, 235, 232, 239, 238, 236, 196, 197, 201, 230, 198, 244,
  246, 242, 251, 249, 255, 214, 220, 402, 225, 237, 243, 250, 241, 209, 170, 186, 945, 223, 915, 960,
  931, 963, 181, 964, 934, 920, 937, 948, 966, 949, 8319]

def isCased (c : Char) : Bool :=
  if c.toNat < 128 then c.isAlpha else casedPoints.contains c.toNat

/-- The characters of the code page that the final sigma rule looks through. -/
def isCaseIgnorable (c : Char) : Bool := [39, 46, 58, 94, 96, 183, 8319].contains c.toNat

/-- The first character that counts is cased. -/
def startsCased (t : List Char) : Bool := ((t.dropWhile isCaseIgnorable).head?.map isCased).getD false

def lowerChar (before after : List Char) (c : Char) : Char :=
  if c.toNat < 128 then c.toLower
  else if c = 'Σ' then if startsCased before && !startsCased after then 'ς' else 'σ'
  else ((lowerPairs.lookup c.toNat).map Char.ofNat).getD c

/-- Lower case of the text, where `before` holds the characters in front of it, nearest first. -/
def lowerFrom (before : List Char) : List Char → List Char
  | [] => []
  | c :: rest => lowerChar before rest c :: lowerFrom (c :: before) rest

def lower (t : List Char) : List Char := lowerFrom [] t

@[simp] theorem length_lowerFrom (before t : List Char) : (lowerFrom before t).length = t.length := by
  induction t generalizing before with
  | nil => rfl
  | cons c rest ih => simp [lowerFrom, ih]

@[simp] theorem length_lower (t : List Char) : (lower t).length = t.length := length_lowerFrom [] t

end BasicMachine
