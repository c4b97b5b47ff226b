import BasicMachine.Interpreter

/-! Running the stored program. In each turn the pending command runs first, and then one line from the
queue or, if that is empty, the next line of the program. -/
namespace BasicMachine

namespace Machine

/-- The line at the next address. A line without a newline is past the end of the program. -/
def readProgramLine : Action Text := do
  changeControl fun c => { c with counter := c.next }
  let m ← get
  let line ← Run.ofExcept (m.memory.readLine m.control.counter)
  match m.memory.nextLine m.control.counter with
  | .ok a =>
    changeControl fun c => { c with next := a }
    return line
  | .error _ => throw .endOfProgram

/-- The next line, or nothing at the end of the program. -/
def nextProgramLine : Action (Option Text) :=
  tryCatch (do return some (← readProgramLine)) fun e =>
    if e = .endOfProgram then return none else throw e

def runFromMemory : Action Unit := do
  if !(← get).running then return
  match ← nextProgramLine with
  | some line => runLine line
  | none =>
    modify fun m => { m with running := false }
    Debugger.onExit

/-- Requests in the queue that begin with a slash. -/
def runRequest (request : Text) : Action Unit :=
  let request := upper (strip request)
  if request = "EXIT".toList then modify fun m => { m with allDone := true }
  else if request = "RUN".toList then modify fun m => { m with running := true }
  else pure ()

def runQueued (line : Text) : Action Unit :=
  match line with
  | '/' :: request => runRequest request
  | _ => runLine line

def runPending : Action Unit := do
  match (← get).control.pending with
  | some tokens =>
    runTokens tokens
    changeControl fun c => { c with pending := none }
  | none => pure ()

def turn : Action Unit := do
  runPending
  let m ← get
  match m.queue with
  | line :: rest =>
    set { m with queue := rest }
    runQueued line
  | [] => runFromMemory

def isDone (m : Machine) : Bool := m.allDone || m.programFinished

/-- There is nothing left to run. -/
def isIdle (m : Machine) : Bool := m.queue.isEmpty && !m.running && m.control.pending.isNone

def numerics (m : Machine) : List (Text × Nat) :=
  numericNames.map fun name => (name, (m.numeric name).toOption.getD 0)

end Machine

/-- How a run ended. -/
inductive Ending where
  | finished | idle | limit
  | failed (e : Fault)
  deriving DecidableEq, Repr

/-- The machine at the end of a turn: where the program is and which numeric variables are new. -/
structure Glimpse where
  counter : Int
  next : Int
  changed : List (Text × Nat)
  deriving DecidableEq, Repr

structure Report where
  ending : Ending
  turns : Nat
  trace : List Glimpse
  deriving DecidableEq, Repr

namespace Report

/-- The report of a run with one more turn in front. -/
def after (g : Glimpse) (r : Report) : Report :=
  { r with turns := r.turns + 1, trace := g :: r.trace }

end Report

namespace Machine

def glimpse (before m : Machine) : Glimpse :=
  let old := before.numerics
  { counter := m.control.counter
    next := m.control.next
    changed := m.numerics.filter fun e => !old.contains e }

/-- A fault drops the pending command and stops the program. -/
def halt (m : Machine) : Machine :=
  { m with control := { m.control with pending := none }, running := false }

/-- The end of a run that came to its end: the window closes. -/
def finish (m : Machine) : Report × Machine :=
  (⟨.finished, 0, []⟩, { m with screen := { m.screen with closed := true } })

/-- Takes turns until the machine is done or idle, and `n` at most. -/
def runTurns : Nat → Machine → Report × Machine
  | 0, m => if m.isDone then m.finish else (⟨.limit, 0, []⟩, m)
  | n + 1, m =>
    if m.isDone then m.finish
    else match turn.run m with
      | (.error e, m') => (⟨.failed e, 0, []⟩, m'.halt)
      | (.ok _, m') =>
        let (r, last) :=
          if !m'.isDone && m'.isIdle then (⟨.idle, 0, []⟩, m') else runTurns n m'
        (r.after (glimpse m m'), last)

end Machine
end BasicMachine
