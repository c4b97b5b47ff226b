import BasicMachine.Host
import BasicMachine.ShortName

/-! The disk of the machine: a folder of the host, seen through short names. The table of short names is
taken from the folder whenever the disk is read again, and can be behind the folder in between. -/
namespace BasicMachine

structure Disk where
  folder : Folder := {}
  host : Host := .alone
  /-- The files of the folder with their short names. -/
  names : List (Text × Text) := []

namespace Disk

/-- Gives each file among the entries a short name that no file before it has. -/
def tabulate (host : Host) (folder : Folder) (taken : List Text) :
    List Text → Except Fault (List (Text × Text))
  | [] => return []
  | name :: names => do
    if ← host.isFile folder name then
      let short ← ShortName.ofName name taken
      return (name, short) :: (← tabulate host folder (taken ++ [short]) names)
    else tabulate host folder taken names

/-- The short names that the files of the folder get. -/
def table (d : Disk) : Except Fault (List (Text × Text)) := do
  tabulate d.host d.folder [] (← d.host.list d.folder)

/-- Takes the short names from the folder. -/
def refresh : Run Disk Unit := do
  let d ← get
  let names ← Run.ofExcept d.table
  set { d with names }

def fullNames (d : Disk) : List Text := d.names.map (·.1)

def shortNames (d : Disk) : List Text := d.names.map (·.2)

/-- The file that has a short name. -/
def hostName? (d : Disk) (name : Text) : Option Text :=
  (d.names.find? fun e => e.2 == name).map (·.1)

/-- The path of a name: the file with that short name, or else the name itself. -/
def path (d : Disk) (name : Text) : Text := (d.hostName? name).getD name

/-- Makes an empty file under the short name of `name`, unless there is an entry already. -/
def addFile (name : Text) : Run Disk Unit := do
  let d ← get
  let short ← Run.ofExcept (ShortName.ofName name d.fullNames)
  if !(← Run.ofExcept (d.host.exists? d.folder short)) then
    let folder ← Run.ofExcept (d.host.make d.folder short)
    set { d with folder }
  refresh

/-- The path of a name, for which a file is made if the name is not a short name yet. -/
def newPath (name : Text) : Run Disk Text := do
  match (← get).hostName? name with
  | some host => return host
  | none =>
    addFile name
    return (← get).path name

/-- The path of a name that leads to an entry. -/
def existingPath (d : Disk) (name : Text) : Except Fault Text := do
  if ← d.host.exists? d.folder (d.path name) then return d.path name
  else throw (.fileNotFound name)

def size (d : Disk) (name : Text) : Except Fault Nat := do
  d.host.size d.folder (← d.existingPath name)

def load (d : Disk) (name : Text) : Except Fault (List UInt8) := do
  d.host.read d.folder (← d.existingPath name)

def onFolder {α : Type} (x : Run Folder α) : Run Disk α :=
  Run.onPart Disk.folder (fun folder d => { d with folder }) x

def save (name : Text) (bytes : List UInt8) : Run Disk Unit := do
  let path ← newPath name
  onFolder ((← get).host.write path bytes)

def hasFile (d : Disk) (name : Text) : Except Fault Bool := d.host.isFile d.folder (d.path name)

def delete (name : Text) : Run Disk Unit := do
  let d ← get
  let path ← Run.ofExcept (d.existingPath name)
  let folder ← Run.ofExcept (d.host.remove d.folder path)
  set { d with folder }
  refresh

/-- Moves an entry to the short name of `newName`. -/
def rename (name newName : Text) : Run Disk Unit := do
  let d ← get
  let path ← Run.ofExcept (d.existingPath name)
  let short ← Run.ofExcept (ShortName.ofName newName d.fullNames)
  let folder ← Run.ofExcept (d.host.rename d.folder path short)
  set { d with folder }
  refresh

end Disk
end BasicMachine
