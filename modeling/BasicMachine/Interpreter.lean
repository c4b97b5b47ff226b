import BasicMachine.Command.Routine

/-! Running lines, and the debugger's prompt. The prompt can run lines of its own, which may come back to
it; every line typed there is used up, so the nesting is bounded by the lines that are left. -/
namespace BasicMachine

namespace Command

/-- Runs the command that the arguments begin with. Comments and labels do nothing, and a variable begins
an assignment. -/
def dispatch (h : Hooks) : Routine := do
  if !(← Call.hasAny) then return
  if ← Call.hasSilent then return
  if ← Call.hasNumericVar then assign.routine h
  else if ← Call.hasStringVar then buildString.routine h
  else if ← Call.hasWord then execute h (← Call.nextWord)
  else throw .noCommand
where
  /-- Runs the command with a name. -/
  execute (h : Hooks) (name : Text) : Routine :=
    match ofName? name with
    | some c => c.routine h
    | none => throw (.unknownCommand name)

/-- Runs a routine on arguments of its own. -/
def withArguments (tokens : List Token) (r : Routine) : Action Unit := ⟨fun m =>
  let (result, c) := r.run { machine := m, args := { tokens } }
  (result, c.machine)⟩

def runTokens (h : Hooks) (tokens : List Token) : Action Unit := withArguments tokens (dispatch h)

def runLine (h : Hooks) (line : Text) : Action Unit := do
  Machine.logCommand ("Running command: \"".toList ++ line ++ ['"'])
  runTokens h (← Run.ofExcept (Token.parse line))

end Command

namespace Debugger

def promptText : Text := "debug> ".toList

def helpText : Text := "Commands: c = continue, p = print last PRINT, q = quit".toList

/-- The next line that is typed at the prompt. -/
def askLine : Action Text := do
  Machine.type promptText
  let m ← get
  match m.console.input with
  | [] => throw .endOfInput
  | line :: rest =>
    set { m with console := { m.console with input := rest } }
    return line

def dumpAll : Action Unit := do
  Machine.dumpNumerics
  Machine.dumpStrings
  Machine.dumpSettings
  Machine.dumpPalette

/-- The prompt needs the interpreter before the first line is read. -/
def enter (prompt : Action Unit) : Action Unit := do
  if !(← get).attached then throw .noInterpreter
  prompt

def stopAt (prompt : Action Unit) : Action Unit := do
  Machine.typeLine "Breakpoint hit.".toList
  enter prompt

/-- Comes back to the prompt until the debugger is left for good. -/
def untilFinished (prompt : Action Unit) : Nat → Action Unit
  | 0 => pure ()
  | n + 1 => do
    if (← get).debugger.finished then return
    Machine.typeLine "Program exit.".toList
    modify fun m => { m with programFinished := true }
    enter prompt
    untilFinished prompt n

/-- The end of the program: the debugger is finished too, unless it is to prompt on exit. -/
def exitTo (prompt : Action Unit) (lines : Nat) : Action Unit := do
  if (← get).debugger.promptOnExit then untilFinished prompt (lines + 1)
  else modify fun m =>
    { m with debugger := { m.debugger with finished := true }, programFinished := true }

def hooksAt (prompt : Action Unit) (lines : Nat) : Hooks where
  onBreak := stopAt prompt
  onExit := exitTo prompt lines

/-- The prompt with at most `n` lines left to read. -/
def prompt : Nat → Action Unit
  | 0 => do
    let _ ← askLine
    return
  | n + 1 => do
    let line ← askLine
    if line = ['c'] then return
    else if line = ['q'] then Machine.changeDebugger fun d => { d with finished := true }
    else
      if line = ['p'] then
        Machine.typeLine ("Last PRINT: \"".toList ++ (← get).debugger.lastPrint ++ ['"'])
      else if line = ['v'] then dumpAll
      else if line.head? = some '.' then Command.runLine (hooksAt (prompt n) n) (line.drop 1)
      else Machine.typeLine helpText
      prompt n

/-- The lines that can still be typed. -/
def linesLeft : Action Nat := do return (← get).console.input.length

def onBreak : Action Unit := do
  let n ← linesLeft
  stopAt (prompt n)

def onExit : Action Unit := do
  let n ← linesLeft
  exitTo (prompt n) n

def hooks : Hooks := ⟨onBreak, onExit⟩

end Debugger

namespace Machine

def runTokens (tokens : List Token) : Action Unit := Command.runTokens Debugger.hooks tokens

def runLine (line : Text) : Action Unit := Command.runLine Debugger.hooks line

/-- Runs the command with a name on arguments of its own. -/
def execute (name : Text) (tokens : List Token) : Action Unit :=
  Command.withArguments tokens (Command.dispatch.execute Debugger.hooks name)

def registerCommands : Action Unit := Command.all.forM fun c => logRegister c.name

end Machine
end BasicMachine
