import BasicMachine.Machine
import BasicMachine.Text.Integer

/-! The variables of a program. Numeric variables `A` to `Z` are words and string variables `$1` to `$8`
are texts of up to 127 characters; both live in memory. Settings and palette colours have names of
their own and no address. -/
namespace BasicMachine

/-- Where programs are loaded. -/
def programStart : Int := 32768

def numericStart : Int := 16384

def stringStart : Int := 16640

def stringLimit : Int := 127

def numericAddress (name : Text) : Except Fault Int :=
  match name with
  | [c] =>
    let n := (c.toNat : Int) - 'A'.toNat
    if n < 0 ∨ 25 < n then .error (.invalidNumericVariable name) else .ok (numericStart + n * 2)
  | _ => .error (.nameLength name.length)

def stringAddress (name : Text) : Except Fault Int :=
  match name with
  | [] => .error .emptyText
  | c :: rest =>
    if c ≠ '$' then .error (.invalidStringVariable name)
    else match rest with
      | [] => .error .emptyText
      | d :: _ => match Text.readInteger? [d] with
        | none => .error (.invalidStringVariable name)
        | some n =>
          if n < 1 ∨ 8 < n then .error (.invalidStringVariable name)
          else .ok (stringStart + (n - 1) * (stringLimit + 1))

namespace Machine

def numeric (m : Machine) (name : Text) : Except Fault Nat := do
  m.memory.readWord (← numericAddress name)

def string (m : Machine) (name : Text) : Except Fault Text := do
  m.memory.readString (← stringAddress name) stringLimit 0

/-- Numbers are stored modulo 65536. -/
def setNumeric (name : Text) (v : Int) : Action Unit := do
  let v := v % 65536
  logSet name v
  let a ← Run.ofExcept (numericAddress name)
  onMemory (Memory.writeWord a v)

def setString (name t : Text) : Action Unit := do
  let a ← Run.ofExcept (stringAddress name)
  modify fun m => { m with memory := m.memory.writeString a t stringLimit }

/-- A setting that was never made is zero. -/
def setting (m : Machine) (name : Text) : Int := (m.settings.lookup name).getD 0

def setSetting (name : Text) (v : Int) : Action Unit :=
  modify fun m => { m with settings := setNamed name v m.settings }

def programSize (m : Machine) : Int := m.setting "prog_size".toList

def setProgramSize (n : Int) : Action Unit := setSetting "prog_size".toList n

def colour (m : Machine) (name : Text) : Except Fault ColourPair :=
  match m.palette.lookup name with
  | some p => .ok p
  | none => .error (.undefinedColour name)

def setColour (name : Text) (p : ColourPair) : Action Unit :=
  modify fun m => { m with palette := setNamed name p m.palette }

/-- The first place in the program where the label stands with its colon. -/
def labelAddress (m : Machine) (label : Text) : Except Fault Nat :=
  (m.memory.findString (label ++ [':']) programStart (programStart + m.programSize)).mapError fun _ =>
    .undefinedLabel label

def numericNames : List Text := (List.range 26).map fun i => [Char.ofNat (65 + i)]

def stringNames : List Text := (List.range 8).map fun i => ['$', Char.ofNat (49 + i)]

def dumpNumerics : Action Unit :=
  numericNames.forM fun name => do
    typeLine (name ++ ": ".toList ++ Text.ofNat (← ask (numeric · name)))

def dumpStrings : Action Unit :=
  stringNames.forM fun name => do
    typeLine (name ++ ": \"".toList ++ (← ask (string · name)) ++ ['"'])

def dumpSettings : Action Unit := do
  (← get).settings.forM fun e => typeLine (e.1 ++ ": ".toList ++ Text.ofInt e.2)

def dumpPalette : Action Unit := do
  (← get).palette.forM fun e => typeLine (e.1 ++ ": ".toList ++ e.2.describe)

end Machine

end BasicMachine
