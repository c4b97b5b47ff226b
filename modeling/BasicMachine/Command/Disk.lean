import BasicMachine.Command.Basic

/-! Commands for files. They leave a result code in the variable `R`, zero for success, and the size of
a file in `S`. -/
namespace BasicMachine.Command

open Call

def setResult (n : Int) : Routine := do Machine.setNumeric ['R'] n

/-- Tries a step. A fault that has a code becomes the result, and any other fault goes on. -/
def attempt {α : Type} (x : Run Call α) (code : Fault → Option Int) (done : α → Routine) : Routine := do
  let r ← tryCatch (do return Except.ok (← x)) fun e =>
    match code e with
    | some n => return .error n
    | none => throw e
  match r with
  | .ok a => done a
  | .error n => setResult n

/-- Code 2 for a missing file and 1 for any other refusal. -/
def missingOrRefused (e : Fault) : Option Int :=
  if e.isMissingFile then some 2 else if e.isDiskFault then some 1 else none

/-- Code 3 for a name that is taken, if the host minds. -/
def takenOrRefused (e : Fault) : Option Int :=
  if e = .fileExists then some 3 else missingOrRefused e

def refused (e : Fault) : Option Int := if e.isDiskFault then some 1 else none

def missing (e : Fault) : Option Int := if e.isMissingFile then some 1 else none

def runDelete : Routine :=
  attempt (do Machine.onDisk (Disk.delete (← nextString))) missingOrRefused fun _ => setResult 0

def sizeOf (name : Text) : Run Call Nat := do
  Run.ofExcept ((← get).machine.disk.size name)

def setSize (n : Nat) : Routine := do
  setResult 0
  Machine.setNumeric ['S'] n

/-- Loads a file to the address that comes behind its name, and returns its size. -/
def loadFile : Run Call Nat := do
  let name ← nextString
  let a ← nextNumeric
  let n ← sizeOf name
  Machine.loadFile name a
  return n

def runLoad : Routine := attempt loadFile refused setSize

def runRename : Routine :=
  attempt (do
    let name ← nextString
    let newName ← nextString
    Machine.onDisk (Disk.rename name newName)) takenOrRefused fun _ => setResult 0

/-- A file that is there already is left alone, and the code for it does not last. -/
def runSave : Routine :=
  attempt (do
    let name ← nextString
    let a ← nextNumeric
    let n ← nextNumeric
    if ← Run.ofExcept ((← get).machine.disk.hasFile name) then setResult 2
    else
      Machine.saveFile name a n
      setResult 0) refused fun _ => setResult 0

def runSize : Routine := attempt (do sizeOf (← nextString)) missing setSize

end BasicMachine.Command
