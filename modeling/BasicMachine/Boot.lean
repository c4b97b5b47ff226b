import BasicMachine.Program

/-! Starting the machine up, and its main loop of frames. -/
namespace BasicMachine

inductive Event where
  | quit
  | keyDown (press : KeyPress)
  | other
  deriving DecidableEq, Repr

namespace Machine

def openWindow : Action Unit := changeScreen fun s => { s with windowOpen := true }

def update : Action Unit := modify fun m => { m with screen := m.screen.update m.clock }

def handleEvent : Event → Action Unit
  | .quit => closeWindow
  | .keyDown k => press k
  | .other => pure ()

def handleEvents (events : List Event) : Action Unit := events.forM handleEvent

/-- Opens the window, reads the disk, and makes the interpreter with the debugger on. -/
def setup : Action Unit := do
  openWindow
  update
  onDisk Disk.refresh
  changeDebugger fun d => { d with enabled := true }
  registerCommands

def systemRelease : Text := "4.7.0".toList

/-- The commands of the system that the greeting lists. -/
def systemCommands : List Text :=
  ["DIR".toList, "LS".toList, "COPY".toList, "REN".toList, "DEL".toList, "CAT".toList, "SIZE".toList,
    "CLS".toList, "HELP".toList, "TIME".toList, "DATE".toList, "VER".toList, "EXIT".toList]

def preamble : Action Unit := do
  print ("MikeOS ".toList ++ systemRelease ++ " (BASIC Emulator)\n".toList)
  print ("Commands: ".toList ++ Text.join ", ".toList systemCommands ++ ['\n'])
  print "> PROGRAM.BAS\n".toList

/-- Puts the lines that load and start a program into the queue. -/
def queueProgram (name : Text) : Action Unit :=
  modify fun m => { m with queue := m.queue ++
    ["INCLUDE \"".toList ++ name ++ ['"'], "GOTO PROGSTART".toList, "/RUN".toList] }

/-- Makes the machine ready to run a program from the disk. -/
def boot (name : Text) : Action Unit := do
  setup
  preamble
  queueProgram name

/-- The program that the main loop starts. -/
def mainProgram : Text := "EXAMPLE.BAS".toList

/-- One frame of the main loop: the events come in and the window is drawn, and then the interpreter has
`limit` turns. -/
def frame (limit : Nat) (events : List Event) (m : Machine) : Report × Machine :=
  let drawn := ((do handleEvents events; update : Action Unit).run m).2
  runTurns limit drawn

/-- Frames for the given events, until the window is closed or the debugger is finished. -/
def frames (limit : Nat) : List (List Event) → Machine → List Report × Machine
  | [], m => ([], m)
  | events :: rest, m =>
    if m.screen.closed || m.debugger.finished then ([], m)
    else
      let (r, m') := frame limit events m
      let (rs, last) := frames limit rest m'
      (r :: rs, last)

/-- The whole program: boot, frames, and the window closes at the end. -/
def runMain (limit : Nat) (events : List (List Event)) (m : Machine) : List Report × Machine :=
  let (rs, last) := frames limit events ((boot mainProgram).run m).2
  (rs, { last with screen := { last.screen with closed := true } })

end Machine
end BasicMachine
