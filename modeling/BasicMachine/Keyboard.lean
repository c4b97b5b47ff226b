import BasicMachine.Machine

/-! The keyboard: key presses go into a queue of codes, and programs take single keys or whole lines
out of it. -/
namespace BasicMachine

/-- The character of a code point. A surrogate has none, and the replacement character stands for it. -/
def charOfCode (n : Int) : Except Fault Char :=
  if n < -0x80000000 ∨ 0x80000000 ≤ n then .error .hugeCodePoint
  else if n < 0 ∨ 0x110000 ≤ n then .error .codePointRange
  else if 0xD800 ≤ n ∧ n < 0xE000 then .ok (Char.ofNat 0xFFFD)
  else .ok (Char.ofNat n.toNat)

/-- The characters that are echoed and kept when a line is typed. -/
def isTypable (c : Char) : Bool :=
  (32 ≤ c.toNat && c.toNat < 127) || (9 ≤ c.toNat && c.toNat ≤ 13)

def enterKey : Int := 13

def escapeKey : Int := 27

namespace Machine

/-- Puts the code of a key press into the queue. -/
def press (k : KeyPress) : Action Unit := do
  match k.key.codes? with
  | some codes =>
    let code := KeyPress.visible (KeyPress.code k.modifiers codes)
    modify fun m => { m with keys := m.keys ++ [(code : Int)] }
  | none =>
    let number := match k.key with
      | .named name => name
      | .other n => Text.ofInt n
    debug "KEYBOARD".toList ("Unknown key: ".toList ++ number)

def closeWindow : Action Unit := changeScreen fun s => { s with closed := true }

/-- The next key that is not zero. Waiting for a key that does not come closes the window, and a closed
window ends the program. -/
def waitKeyIn : List Int → Action Int
  | [] => do
    modify fun m => { m with keys := [] }
    closeWindow
    throw .closed
  | k :: rest => do
    modify fun m => { m with keys := rest }
    if (← get).screen.closed then throw .closed
    if k = 0 then waitKeyIn rest else return k

def waitKey : Action Int := do waitKeyIn (← get).keys

/-- The next key, or zero when there is none. -/
def pollKey : Action Int := do
  let m ← get
  let k := m.keys.headD 0
  set { m with keys := m.keys.tail }
  if m.screen.closed then throw .closed
  return k

/-- Takes keys up to the enter key, and echoes and keeps those that can be typed. -/
def readTyped (typed : Text) : Nat → Action Text
  | 0 => do
    let _ ← waitKey
    return typed
  | n + 1 => do
    let k ← waitKey
    if k = enterKey then return typed
    let c ← Run.ofExcept (charOfCode k)
    if isTypable c then
      print [c]
      readTyped (typed ++ [c]) n
    else readTyped typed n

/-- Reads a line from the keyboard behind a prompt. -/
def readText (prompt : Text) : Action Text := do
  if prompt ≠ [] then print prompt
  let t ← readTyped [] (← get).keys.length
  newline
  return t

end Machine
end BasicMachine
