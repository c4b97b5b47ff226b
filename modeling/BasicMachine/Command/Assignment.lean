import BasicMachine.Command.Basic

/-! Assignments to numeric and string variables. Arguments behind the expression are an error that stops
at the debugger, and the assignment is made all the same. -/
namespace BasicMachine.Command

open Call

def runAssign (h : Hooks) : Routine := do
  let name ← nextNumericVar
  nextSymbolIs ['=']
  let v ← sum
  if ← hasAny then
    h.complain "COMMAND".toList "Invalid arguments in numeric assignment.".toList
  Machine.setNumeric name v

def runBuildString (h : Hooks) : Routine := do
  let name ← nextStringVar
  nextSymbolIs ['=']
  let t ← concat
  if ← hasAny then
    h.complain "COMMAND".toList "Invalid arguments in string building.".toList
  Machine.setString name t

end BasicMachine.Command
