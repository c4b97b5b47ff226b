import BasicMachine.Command.Basic
import BasicMachine.Token.Decode

/-! The command that reads numbers from a data line of the program. -/
namespace BasicMachine.Command

open Call

/-- The values of the numbers at the start of a line. -/
def leadingNumbers (m : Machine) : List Token → Except Fault (List Int)
  | [] => .ok []
  | t :: rest =>
    if t.isNumeric then do
      let n ← t.toNumeric m
      return n :: (← leadingNumbers m rest)
    else .ok []

/-- The numbers on the line behind the one at an address. -/
def readBlock (m : Machine) (a : Int) : Except Fault (List Int) := do
  if !m.attached then throw .noInterpreter
  let line ← m.memory.readLine (← m.memory.nextLine a)
  leadingNumbers m (← Token.parse line)

/-- The data of a label, which is read once and kept. -/
def dataBlock (label : Text) (a : Int) : Action (List Int) := do
  match (← get).control.blocks.lookup label with
  | some data => return data
  | none =>
    let data ← Machine.ask fun m => readBlock m a
    Machine.changeControl fun c => { c with blocks := setNamed label data c.blocks }
    return data

def runReadData : Routine := do
  let (label, a) ← nextLabel
  let data ← onMachine (dataBlock label a)
  let i ← nextNumeric
  if i ≥ data.length then throw .endOfData
  let k ← Run.ofExcept (place .noSuchItem data.length i)
  putNumeric (data[k]?.getD 0)

end BasicMachine.Command
