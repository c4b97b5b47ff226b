import BasicMachine.Disk
import BasicMachine.Key
import BasicMachine.Screen
import BasicMachine.Token.Basic
import BasicMachine.Tone

/-! The state of the whole machine, and the steps on it that the console and the log take. -/
namespace BasicMachine

inductive LogLevel where
  | debug | info | warning | error
  deriving DecidableEq, Repr

def LogLevel.name : LogLevel → Text
  | debug => "DEBUG".toList
  | info => "INFO".toList
  | warning => "WARNING".toList
  | error => "ERROR".toList

structure LogEntry where
  level : LogLevel
  text : Text
  deriving DecidableEq, Repr

/-- The terminal that the machine was started from. -/
structure Console where
  /-- Lines that are typed and not read yet. -/
  input : List Text := []
  /-- What was printed, the newest piece first. -/
  printed : List Text := []
  /-- What was logged, the newest entry first. -/
  logged : List LogEntry := []
  deriving DecidableEq, Repr

namespace Console

def output (c : Console) : Text := c.printed.reverse.flatten

def log (c : Console) : List LogEntry := c.logged.reverse

end Console

structure Debugger where
  enabled : Bool := false
  showPrints : Bool := false
  /-- Messages of these types are printed too. -/
  shownTypes : List Text := []
  lastPrint : Text := []
  promptOnExit : Bool := false
  finished : Bool := false
  deriving DecidableEq, Repr

/-- A `FOR` loop: the count, the last count, and where its body starts. -/
structure ForLoop where
  state : Int := 0
  last : Int := 0
  start : Int := 0
  deriving DecidableEq, Repr

namespace ForLoop

def setRange (l : ForLoop) (first last : Int) : ForLoop := { l with state := first, last := last }

def increment (l : ForLoop) : ForLoop := { l with state := l.state + 1 }

def isFinished (l : ForLoop) : Bool := decide (l.state > l.last)

end ForLoop

structure Control where
  /-- The address of the line that runs. -/
  counter : Int := 0
  /-- The address of the line to run next. -/
  next : Int := 0
  /-- Starts of the open `DO` loops, the innermost first. -/
  doStack : List Int := []
  /-- Return addresses, the newest first. -/
  gosubStack : List Int := []
  loops : List (Text × ForLoop) := []
  lastIf : Bool := true
  /-- The command behind a `THEN` or `ELSE`, which runs first in the next turn. -/
  pending : Option (List Token) := none
  /-- The data lines read so far, by label. -/
  blocks : List (Text × List Int) := []
  deriving DecidableEq, Repr

structure SerialPort where
  enabled : Bool := false
  baud : Int := 0
  buffer : List UInt8 := []
  deriving DecidableEq, Repr

inductive SpeakerEvent where
  | play (samples rate : Nat)
  | stop
  deriving DecidableEq, Repr

namespace Settings

def initial : List (Text × Int) := [
  ("prog_size".toList, 0),
  ("list_dialog_x".toList, 20),
  ("list_dialog_y".toList, 2),
  ("list_dialog_width".toList, 40),
  ("list_dialog_height".toList, 21)]

end Settings

namespace Palette

def initial : List (Text × ColourPair) := [
  ("text".toList, plainColour),
  ("background".toList, plainColour),
  ("dialog_outer".toList, ⟨.white, .red⟩),
  ("dialog_inner".toList, ⟨.black, .white⟩),
  ("dialog_select".toList, ⟨.white, .black⟩)]

end Palette

structure Machine where
  memory : Memory := Memory.fresh
  settings : List (Text × Int) := Settings.initial
  palette : List (Text × ColourPair) := Palette.initial
  control : Control := {}
  screen : Screen := {}
  /-- Keys that were pressed and not read yet. -/
  keys : List Int := []
  disk : Disk := {}
  serial : SerialPort := {}
  speaker : List SpeakerEvent := []
  /-- The samples that the host makes of a tone of some tenths of a second, or why it makes none. -/
  sampler : (frequency tenths : Int) → Except Fault Nat := Tone.length
  debugger : Debugger := {}
  console : Console := {}
  /-- The time that the clock shows. It stands still while the machine runs: a wait is counted in `sleeps`
  alone, and every look at the clock in a run gives the same time. -/
  clock : Clock := {}
  sleeps : Nat := 0
  /-- The random numbers to come. -/
  dice : List Int := []
  /-- There is an interpreter for the debugger to use. -/
  attached : Bool := true
  /-- Lines to run before the program goes on. -/
  queue : List Text := []
  programFinished : Bool := false
  allDone : Bool := false
  /-- The stored program runs. -/
  running : Bool := false

/-- A step on the machine. -/
abbrev Action := Run Machine

namespace Machine

def onMemory {α : Type} (x : Run Memory α) : Action α :=
  Run.onPart Machine.memory (fun memory m => { m with memory }) x

def onScreen {α : Type} (x : Run Screen α) : Action α :=
  Run.onPart Machine.screen (fun screen m => { m with screen }) x

def onDisk {α : Type} (x : Run Disk α) : Action α :=
  Run.onPart Machine.disk (fun disk m => { m with disk }) x

def changeScreen (f : Screen → Screen) : Action Unit := modify fun m => { m with screen := f m.screen }

def changeControl (f : Control → Control) : Action Unit :=
  modify fun m => { m with control := f m.control }

def changeDebugger (f : Debugger → Debugger) : Action Unit :=
  modify fun m => { m with debugger := f m.debugger }

/-- A value that hangs on the state and may be a fault. -/
def ask {α : Type} (f : Machine → Except Fault α) : Action α := ⟨fun m => (f m, m)⟩

@[simp] theorem run_ask {α : Type} (f : Machine → Except Fault α) (m : Machine) :
    (ask f).run m = (f m, m) := rfl

/-- Stores the bytes of a file from an address on. -/
def loadFile (name : Text) (a : Int) : Action Unit := do
  let bytes ← ask fun m => m.disk.load name
  modify fun m => { m with memory := m.memory.writeData a bytes }

theorem run_loadFile (name : Text) (a : Int) (m : Machine) :
    (loadFile name a).run m = match m.disk.load name with
      | .ok bytes => (.ok (), { m with memory := m.memory.writeData a bytes })
      | .error e => (.error e, m) := by
  simp only [loadFile, Run.run_bind, run_ask]
  cases m.disk.load name <;> rfl

/-- Writes the `n` bytes from an address on to a file. -/
def saveFile (name : Text) (a n : Int) : Action Unit := do
  onDisk (Disk.save name ((← get).memory.readData a n))

theorem run_saveFile (name : Text) (a n : Int) (m : Machine) :
    (saveFile name a n).run m = (((Disk.save name (m.memory.readData a n)).run m.disk).1,
      { m with disk := ((Disk.save name (m.memory.readData a n)).run m.disk).2 }) := rfl

/-- Prints a text on the console. -/
def type (t : Text) : Action Unit :=
  modify fun m => { m with console := { m.console with printed := t :: m.console.printed } }

def typeLine (t : Text) : Action Unit := type (t ++ ['\n'])

def record (level : LogLevel) (t : Text) : Action Unit :=
  modify fun m => { m with console := { m.console with logged := ⟨level, t⟩ :: m.console.logged } }

/-- A message of the debugger: logged while it is enabled, printed if its type is shown. -/
def report (level : LogLevel) (kind t : Text) : Action Unit := do
  let line := kind ++ ": ".toList ++ t
  let m ← get
  if m.debugger.enabled then record level line
  if m.debugger.shownTypes.contains kind then typeLine line

/-- An error is always logged and printed. -/
def reportError (kind t : Text) : Action Unit := do
  let line := kind ++ ": ".toList ++ t
  record .error line
  typeLine line

def debug (kind t : Text) : Action Unit := report .debug kind t

def logCommand (line : Text) : Action Unit := debug "COMMAND".toList line

def logSet (name : Text) (v : Int) : Action Unit :=
  debug "SET".toList (name ++ " = ".toList ++ Text.ofInt v)

def logRegister (name : Text) : Action Unit := debug "REGISTER".toList ("COMMAND: ".toList ++ name)

def logPrint (t : Text) : Action Unit := do
  if (← get).debugger.showPrints then typeLine ("PRINT: \"".toList ++ t ++ ['"'])
  debug "PRINT".toList t
  changeDebugger fun d => { d with lastPrint := t }

def showType (kind : Text) : Action Unit :=
  changeDebugger fun d => { d with shownTypes := d.shownTypes ++ [kind] }

def hideType (kind : Text) : Action Unit := do
  if (← get).debugger.shownTypes.contains kind then
    changeDebugger fun d => { d with shownTypes := d.shownTypes.erase kind }
  else throw .missingType

/-- Prints on the screen. -/
def printIn (colour : ColourPair) (t : Text) : Action Unit := do
  logPrint t
  changeScreen fun s => s.print t colour

/-- Prints in the colour of the screen. -/
def print (t : Text) : Action Unit := do
  logPrint t
  changeScreen fun s => s.print t s.colour

def newline : Action Unit := changeScreen Screen.newline

/-- Waits `tenths` tenths of a second in short pauses. A closed window ends the wait and the program. -/
def delay (tenths : Int) : Action Unit := do
  let n ← Run.ofExcept (pauseCount tenths)
  if n = 0 then return
  if (← get).screen.closed then
    modify fun m => { m with sleeps := m.sleeps + 1 }
    throw .closed
  modify fun m => { m with sleeps := m.sleeps + n }

end Machine
end BasicMachine
