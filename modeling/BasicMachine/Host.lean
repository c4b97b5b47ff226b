import BasicMachine.Folder

/-! The host that keeps the folder. Which name stands for which entry is settled by the folder. Where a path
leads that leaves the folder, what is refused and why, and in which order the names are listed is up to the
host. -/
namespace BasicMachine

/-- A reason for which a host does not do what is asked. -/
structure Refusal where
  fault : Fault
  isDiskFault : fault.isDiskFault = true

/-- What is asked of a host, apart from the path. -/
inductive HostCall where
  | list
  | look
  | measure
  | read
  /-- A new file is made, unless there is an entry already. -/
  | make
  /-- A file is opened to be written anew. -/
  | rewrite
  | remove
  | move (name : Text)
  deriving DecidableEq, Repr

structure Host where
  /-- Where a path leads that begins at the root of the host or has more than one step. -/
  leads : Folder → Text → Except Refusal Spot
  refuses : Folder → HostCall → Text → Option Refusal
  /-- The bytes that are written before a write breaks off. -/
  cuts : Folder → Text → List UInt8 → Option (Nat × Refusal)
  /-- The names in the folder, in the order in which the host lists them. -/
  listed : Folder → List Text
  folderSize : Folder → Spot → Nat
  /-- The folder at a place has nothing in it. -/
  isVacant : Folder → Text → Bool
  listed_perm : ∀ f, (listed f).Perm (f.entries.map (·.1))
  /-- A file that is written where a path leads does not change where the path leads. -/
  steady : ∀ f path spot bytes, leads f path = .ok spot →
    (∀ place, f.entryAt? spot ≠ some (.folder place)) →
    leads (f.put spot (.file bytes)) path = .ok spot

namespace Host

variable (h : Host) (f : Folder)

/-- A path of one step leads to an entry of the folder, there or not, or to the folder above. -/
def locate (path : Text) : Except Fault Spot :=
  if path.head? = some '/' then (h.leads f path).mapError Refusal.fault
  else match Folder.steps path with
    | [] => .ok .whole
    | [step] =>
      if Folder.byteLength step > 255 then .error .nameTooLong
      else if step = ['.', '.'] then .ok .above
      else .ok (.entry step)
    | _ => (h.leads f path).mapError Refusal.fault

/-- The spot to do what is asked at. -/
def reach (call : HostCall) (path : Text) : Except Fault Spot :=
  if path.contains '\x00' then .error .nullInName
  else match h.refuses f call path with
    | some r => .error r.fault
    | none => h.locate f path

def list : Except Fault (List Text) :=
  match h.refuses f .list [] with
  | some r => .error r.fault
  | none => .ok (h.listed f)

/-- What a path leads to. A path that cannot be followed leads to nothing, but a look can be refused. -/
def lookup (path : Text) : Except Fault (Option Entry) :=
  match h.reach f .look path with
  | .ok spot => .ok (f.entryAt? spot)
  | .error e => if e.isAbsence then .ok none else .error e

def exists? (path : Text) : Except Fault Bool := do
  return (← h.lookup f path).isSome

def isFile (path : Text) : Except Fault Bool := do
  return ((← h.lookup f path).map Entry.isFile).getD false

def size (path : Text) : Except Fault Nat := do
  let spot ← h.reach f .measure path
  match f.entryAt? spot with
  | some (.file bytes) => return bytes.length
  | some (.folder _) => return h.folderSize f spot
  | none => throw .noSuchFile

def read (path : Text) : Except Fault (List UInt8) := do
  match f.entryAt? (← h.reach f .read path) with
  | some (.file bytes) => return bytes
  | some (.folder _) => throw .isFolder
  | none => throw .noSuchFile

/-- The folder with an empty file at a path, unless there is an entry already. -/
def make (path : Text) : Except Fault Folder := do
  let spot ← h.reach f .make path
  return if (f.entryAt? spot).isSome then f else f.put spot (.file [])

/-- Writes bytes to the file at a path, which need not be there yet. The file is emptied first. -/
def write (path : Text) (bytes : List UInt8) : Run Folder Unit := do
  let f ← get
  let spot ← Run.ofExcept (h.reach f .rewrite path)
  match f.entryAt? spot with
  | some (.folder _) => throw .isFolder
  | _ =>
    match h.cuts (f.put spot (.file [])) path bytes with
    | none => set (f.put spot (.file bytes))
    | some (n, r) =>
      set (f.put spot (.file (bytes.take n)))
      throw r.fault

/-- The folder without the file at a path. -/
def remove (path : Text) : Except Fault Folder := do
  let spot ← h.reach f .remove path
  match f.entryAt? spot with
  | some (.file _) => return f.clear spot
  | some (.folder _) => throw .isFolder
  | none => throw .noSuchFile

/-- The entry `new` may take the place of the entry `old`. -/
def mayReplace (new old : Entry) : Except Fault Unit :=
  match new, old with
  | .file _, .file _ => .ok ()
  | .file _, .folder _ => .error .isFolder
  | .folder _, .file _ => .error .notFolder
  | .folder _, .folder place => if h.isVacant f place then .ok () else .error .folderNotEmpty

/-- The folder with the entry at a path moved to a name, where it replaces a file or an empty folder. -/
def rename (path name : Text) : Except Fault Folder := do
  let spot ← h.reach f (.move name) path
  if spot = .whole then throw .intoItself
  if spot = .above then throw .busy
  match f.entryAt? spot with
  | none => throw .noSuchFile
  | some e =>
    if spot = .entry name then return f
    match f.find? name with
    | some old => h.mayReplace f e old
    | none => pure ()
    return (f.clear spot).insert name e

end Host

namespace Folder

/-- Follows the steps of a path from the folder, when there is nothing outside of it and no folder has folders
in it. -/
def follow (f : Folder) : List Text → Except Refusal Spot
  | [] => .ok .whole
  | step :: rest =>
    if byteLength step > 255 then .error ⟨.nameTooLong, rfl⟩
    else if step = ['.', '.'] then if rest.isEmpty then .ok .above else .error ⟨.noSuchFile, rfl⟩
    else match rest with
      | [] => .ok (.entry step)
      | next :: after => match f.find? step with
        | none => .error ⟨.noSuchFile, rfl⟩
        | some (.file _) => .error ⟨.notFolder, rfl⟩
        | some (.folder place) =>
          if byteLength next > 255 then .error ⟨.nameTooLong, rfl⟩
          else if next = ['.', '.'] then f.follow after
          else
            let inner := place ++ '/' :: next
            if after.isEmpty then .ok (.elsewhere inner)
            else if (f.elsewhere.lookup inner).isSome then .error ⟨.notFolder, rfl⟩
            else .error ⟨.noSuchFile, rfl⟩

/-- A path leads to the same spot as long as no folder disappears. -/
theorem follow_of_folders {f f' : Folder}
    (h : ∀ name place, f.find? name = some (.folder place) → f'.find? name = some (.folder place))
    {path : List Text} {spot : Spot} (hspot : f.follow path = .ok spot) : f'.follow path = .ok spot := by
  fun_induction follow f path with
  | case1 => simpa [follow] using hspot
  | case3 rest hlast hshort =>
    rw [List.isEmpty_iff.mp hlast]
    simpa [follow, hshort] using hspot
  | case5 step hshort hdots => simpa [follow, hshort, hdots] using hspot
  | case9 step hshort hdots rest place hfolder hshort' ih =>
    simpa [follow, hshort, hdots, h step place hfolder, hshort'] using ih hspot
  | case10 step hshort hdots next rest place hfolder hshort' hdots' inner hlast =>
    rw [List.isEmpty_iff.mp hlast]
    simpa [follow, hshort, hdots, h step place hfolder, hshort', hdots'] using hspot
  | case2 | case4 | case6 | case7 | case8 | case11 | case12 => cases hspot

theorem find?_put_of_folder {f : Folder} {spot : Spot} {e : Entry}
    (hfree : ∀ place, f.entryAt? spot ≠ some (.folder place)) {name place : Text}
    (h : f.find? name = some (.folder place)) : (f.put spot e).find? name = some (.folder place) := by
  cases spot with
  | whole => exact h
  | above => exact h
  | elsewhere other => exact h
  | entry other =>
    rw [put, find?_insert, if_neg, h]
    rintro rfl
    exact hfree place h

end Folder

namespace Host

/-- A host that keeps nothing but the folder, refuses nothing and lists the entries as they stand. -/
def alone : Host where
  leads f path := if path.head? = some '/' then .error ⟨.noSuchFile, rfl⟩ else f.follow (Folder.steps path)
  refuses _ _ _ := none
  cuts _ _ _ := none
  listed f := f.entries.map (·.1)
  folderSize _ _ := 4096
  isVacant f place := !f.elsewhere.any fun e => (place ++ ['/']).isPrefixOf e.1
  listed_perm _ := .refl _
  steady f path spot bytes hspot hfree := by
    split at hspot
    · cases hspot
    · next hhead =>
      rw [if_neg hhead]
      exact Folder.follow_of_folders (fun _ _ => Folder.find?_put_of_folder hfree) hspot

/-- The same host, when it lists the names in order. -/
def byName : Host :=
  { alone with
    listed := fun f => (f.entries.map (·.1)).mergeSort fun a b => !decide (b < a)
    listed_perm := fun _ => List.mergeSort_perm _ _ }

end Host
end BasicMachine
