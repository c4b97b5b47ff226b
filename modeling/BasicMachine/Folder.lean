import BasicMachine.Run

/-! The folder that holds the files of the machine, with what its host keeps elsewhere. -/
namespace BasicMachine

/-- A file, or a folder, which is known by its place. -/
inductive Entry where
  | file (bytes : List UInt8)
  | folder (place : Text)
  deriving DecidableEq, Repr

namespace Entry

def isFile : Entry → Bool
  | file _ => true
  | folder _ => false

end Entry

/-- The value under a name changes in its place; a new name comes last. -/
def setNamed {α : Type} (name : Text) (a : α) : List (Text × α) → List (Text × α)
  | [] => [(name, a)]
  | (other, b) :: rest =>
    if other = name then (other, a) :: rest else (other, b) :: setNamed name a rest

def eraseNamed {α : Type} (name : Text) (entries : List (Text × α)) : List (Text × α) :=
  entries.filter fun e => e.1 != name

theorem lookup_cons_ite {α : Type} (k name : Text) (a : α) (rest : List (Text × α)) :
    ((name, a) :: rest).lookup k = if k = name then some a else rest.lookup k := by
  rw [List.lookup_cons]
  by_cases h : k = name
  · simp [h]
  · have hne : (k == name) = false := by simpa using h
    simp [hne, h]

theorem lookup_setNamed {α : Type} (name : Text) (a : α) (entries : List (Text × α)) (other : Text) :
    (setNamed name a entries).lookup other =
      if other = name then some a else entries.lookup other := by
  induction entries with
  | nil => simp [setNamed, lookup_cons_ite]
  | cons e rest ih =>
    rcases e with ⟨k, b⟩
    simp only [setNamed]
    split
    · next hk => subst hk; simp only [lookup_cons_ite]; split <;> rfl
    · next hk => simp only [lookup_cons_ite, ih]; grind

theorem lookup_eraseNamed {α : Type} (name : Text) (entries : List (Text × α)) (k : Text) :
    (eraseNamed name entries).lookup k = if k = name then none else entries.lookup k := by
  unfold eraseNamed
  induction entries with
  | nil => simp
  | cons e rest ih =>
    obtain ⟨other, b⟩ := e
    rw [List.filter_cons, lookup_cons_ite]
    by_cases hother : other = name
    · rw [if_neg (by simpa using hother), ih, hother]
      split <;> rfl
    · rw [if_pos (by simpa using hother), lookup_cons_ite, ih]
      by_cases hk : k = name
      · rw [if_pos hk, if_pos hk, if_neg (hk ▸ Ne.symm hother)]
      · rw [if_neg hk, if_neg hk]

structure Folder where
  entries : List (Text × Entry) := []
  /-- What lies outside of the folder or in a folder of it, by its place. -/
  elsewhere : List (Text × Entry) := []
  deriving DecidableEq, Repr

/-- Where a path leads. -/
inductive Spot where
  /-- The folder itself. -/
  | whole
  /-- The folder above. -/
  | above
  | entry (name : Text)
  | elsewhere (place : Text)
  deriving DecidableEq, Repr

namespace Folder

def find? (f : Folder) (name : Text) : Option Entry := f.entries.lookup name

def insert (f : Folder) (name : Text) (e : Entry) : Folder :=
  { f with entries := setNamed name e f.entries }

def erase (f : Folder) (name : Text) : Folder := { f with entries := eraseNamed name f.entries }

/-- The names of the files, in the order of the entries. -/
def fileNames (f : Folder) : List Text := (f.entries.filter fun e => e.2.isFile).map (·.1)

/-- What lies at a spot; the folder itself and the one above count as folders. -/
def entryAt? (f : Folder) : Spot → Option Entry
  | .whole | .above => some (.folder [])
  | .entry name => f.find? name
  | .elsewhere place => f.elsewhere.lookup place

/-- The folder with an entry put at a spot. -/
def put (f : Folder) (spot : Spot) (e : Entry) : Folder :=
  match spot with
  | .whole | .above => f
  | .entry name => f.insert name e
  | .elsewhere place => { f with elsewhere := setNamed place e f.elsewhere }

/-- The folder with nothing at a spot. -/
def clear (f : Folder) : Spot → Folder
  | .whole | .above => f
  | .entry name => f.erase name
  | .elsewhere place => { f with elsewhere := eraseNamed place f.elsewhere }

theorem find?_insert (f : Folder) (name : Text) (e : Entry) (k : Text) :
    (f.insert name e).find? k = if k = name then some e else f.find? k :=
  lookup_setNamed name e f.entries k

theorem find?_erase (f : Folder) (name k : Text) :
    (f.erase name).find? k = if k = name then none else f.find? k :=
  lookup_eraseNamed name f.entries k

/-- The steps of a path. Empty steps and single dots lead nowhere. -/
def steps (path : Text) : List Text :=
  (Text.splitAt '/' path).filter fun step => !step.isEmpty && step != ['.']

/-- The name of the folder itself. -/
def name : Text := "virtual_disk".toList

/-- The last step of a path. -/
def nameOf (path : Text) : Text :=
  (steps path).getLast?.getD (if path.head? = some '/' then [] else name)

def byteLength (t : Text) : Nat := t.foldl (fun n c => n + c.utf8Size) 0

end Folder
end BasicMachine
