import BasicMachine.Command.Basic

/-! Commands for the flow of a program. -/
namespace BasicMachine.Command

open Call

def changeControl (f : Control → Control) : Routine := onMachine (Machine.changeControl f)

def control : Run Call Control := do return (← get).machine.control

def jump (a : Int) : Routine := changeControl fun c => { c with next := a }

def runBreak (h : Hooks) : Routine := do h.onBreak

def runCall (h : Hooks) : Routine := do
  h.complain "COMMAND".toList "CALL command not supported.".toList

def runDo : Routine := changeControl fun c => { c with doStack := c.next :: c.doStack }

/-- The rest of the line is the next command. -/
def deferRest : Routine := do
  let rest := (← get).args.remaining
  changeControl fun c => { c with pending := some rest }

def runElse : Routine := do
  if !(← control).lastIf then deferRest

def runEnd (h : Hooks) : Routine := do h.onExit

def runFor : Routine := do
  let name ← nextNumericVar
  nextSymbolIs ['=']
  let first ← sum
  nextWordIs "TO".toList
  let last ← sum
  Machine.setNumeric name first
  changeControl fun c =>
    { c with loops := setNamed name { state := first, last := last, start := c.next } c.loops }

def runGoto : Routine := do jump (← nextAddress)

/-- The return address is saved before the target is read. -/
def runGosub : Routine := do
  let m := (← get).machine
  let a ← Run.ofExcept (m.memory.nextLine m.control.counter)
  changeControl fun c => { c with gosubStack := (a : Int) :: c.gosubStack }
  jump (← nextAddress)

/-- Looks for more conditions behind one with the given result. The word `AND` is never taken, so after
a true condition it is read as a number, and after a false one the search does not end. -/
def andAlso (result : Bool) : Run Call Bool := do
  if ← hasWordIs "AND".toList then
    if result then condition else throw .endless
  else return result

def runIf : Routine := do
  let result ← andAlso (← condition)
  changeControl fun c => { c with lastIf := result }
  nextWordIs "THEN".toList
  if result then deferRest

/-- Loads a file behind the program and counts it as part of the program. -/
def includeFileAt (name : Text) (size : Int) : Action Unit := do
  let n ← Machine.ask fun m => m.disk.size name
  let bytes ← Machine.ask fun m => m.disk.load name
  modify fun m => { m with memory := m.memory.writeData (programStart + size) bytes }
  Machine.setProgramSize (size + n)

def runInclude (h : Hooks) : Routine := do
  let name ← nextString
  let size := (← get).machine.programSize
  tryCatch (onMachine (includeFileAt name size)) fun e =>
    if e.isMissingFile then
      h.complain "FILE".toList ("File not found: ".toList ++ name)
    else throw e

def runLoop : Routine := do
  let kind ← nextWordOf ["WHILE".toList, "UNTIL".toList, "ENDLESS".toList]
  let again ←
    if kind = "WHILE".toList then condition
    else if kind = "UNTIL".toList then (! ·) <$> condition
    else pure true
  match (← control).doStack with
  | [] => throw .emptyStack
  | start :: rest =>
    changeControl fun c => { c with doStack := rest }
    if again then jump start

def runNext (h : Hooks) : Routine := do
  let name ← nextNumericVar
  match (← control).loops.lookup name with
  | none => h.complain "COMMAND".toList ("NEXT without FOR: ".toList ++ name)
  | some l =>
    let l := l.increment
    changeControl fun c => { c with loops := setNamed name l c.loops }
    Machine.setNumeric name l.state
    if l.isFinished then
      changeControl fun c => { c with loops := eraseNamed name c.loops }
    else jump l.start

def runPause : Routine := do Machine.delay (← nextNumeric)

def runReturn (h : Hooks) : Routine := do
  match (← control).gosubStack with
  | [] => h.complain "COMMAND".toList "RETURN without GOSUB.".toList
  | a :: rest =>
    changeControl fun c => { c with gosubStack := rest }
    jump a

end BasicMachine.Command
