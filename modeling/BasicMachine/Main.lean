import BasicMachine.Boot

/-! The command line. The program comes from standard input, every argument is a line typed on the
keyboard, and the screen is shown at the end. -/
namespace BasicMachine.CommandLine

/-- The keys of the lines, with the enter key behind each. -/
def keysOf (lines : List String) : List Int :=
  lines.flatMap fun line => line.toList.map (fun c => (c.toNat : Int)) ++ [enterKey]

/-- The machine with the program on its disk, ready to run it. -/
def load (program : List UInt8) (keys : List Int) : Machine :=
  let folder := Folder.insert {} Machine.mainProgram (.file program)
  ((Machine.boot Machine.mainProgram).run { disk := { folder }, keys }).2

/-- The rows of the screen as lines of text. -/
def picture (s : Screen) : Text :=
  (List.range Screen.rows).flatMap fun n => s.rowText n ++ ['\n']

/-- The turns between two looks at the console. -/
def turnsAtOnce : Nat := 1000

def clearConsole (m : Machine) : Machine :=
  { m with console := { m.console with printed := [], logged := [] } }

/-- Runs the machine until it is done, idle or has failed, and prints what it types meanwhile. -/
partial def runOn (m : Machine) : IO Machine := do
  let (r, m) := m.runTurns turnsAtOnce
  IO.print (String.ofList m.console.output)
  match r.ending with
  | .limit => runOn (clearConsole m)
  | .failed e =>
    IO.eprintln (String.ofList e.message)
    return m
  | _ => return m

partial def readAll (input : IO.FS.Stream) (bytes : ByteArray) : IO ByteArray := do
  let more ← input.read 65536
  if more.isEmpty then return bytes else readAll input (bytes ++ more)

end BasicMachine.CommandLine

open BasicMachine.CommandLine in
/-- Runs a program and shows the screen that it leaves. -/
def main (args : List String) : IO Unit := do
  let program ← readAll (← IO.getStdin) ByteArray.empty
  let m ← runOn (load program.toList (keysOf args))
  IO.print (String.ofList (picture m.screen))
