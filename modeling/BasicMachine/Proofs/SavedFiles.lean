import BasicMachine.Proofs.FileCommands
import BasicMachine.Proofs.FolderEntries

/-! Files that are saved. Saving finds or makes a path for the name, and later the name leads to the same path
again, so what was saved is loaded, on every host that reads back what it wrote. A file that is there already is
left alone, and a write that is refused can leave an empty file or a part of the bytes behind. -/
namespace BasicMachine

namespace Folder

/-- The folder with an empty file under a name, unless there is an entry already. -/
def reserve (f : Folder) (name : Text) : Folder :=
  if (f.find? name).isSome then f else f.insert name (.file [])

theorem find?_reserve (f : Folder) (name k : Text) :
    (f.reserve name).find? k = if k = name then some ((f.find? name).getD (.file [])) else f.find? k := by
  rw [reserve]
  cases hfind : f.find? name with
  | some e =>
    by_cases hk : k = name
    · rw [if_pos hk, hk]
      exact hfind
    · rw [if_neg hk]
      rfl
  | none => exact find?_insert f name (.file []) k

theorem reserve_eq_iff {f : Folder} {name : Text} : f.reserve name = f ↔ f.find? name ≠ none := by
  constructor
  · intro hsame hfree
    have hnew := f.find?_reserve name name
    rw [hsame, hfree, if_pos rfl] at hnew
    cases hnew
  · intro hfound
    rw [reserve, if_pos (Option.isSome_iff_ne_none.mpr hfound)]

theorem setNamed_of_lookup {α : Type} {name : Text} {a : α} {entries : List (Text × α)}
    (h : entries.lookup name = some a) : setNamed name a entries = entries := by
  induction entries with
  | nil => cases h
  | cons x rest ih =>
    obtain ⟨other, b⟩ := x
    rw [lookup_cons_ite] at h
    rw [setNamed]
    split at h
    · next heq => rw [if_pos heq.symm, Option.some.inj h]
    · next hne => rw [if_neg (Ne.symm hne), ih h]

theorem put_eq_iff {f : Folder} {spot : Spot} (hfree : ∀ place, f.entryAt? spot ≠ some (.folder place))
    (e : Entry) : f.put spot e = f ↔ f.entryAt? spot = some e := by
  constructor
  · intro hsame
    have hput := entryAt?_put hfree e
    rwa [hsame] at hput
  · intro hthere
    cases spot with
    | whole => rfl
    | above => rfl
    | entry name => rw [put, insert, setNamed_of_lookup hthere]
    | elsewhere place => rw [put, setNamed_of_lookup hthere]

theorem find?_put_ne_none {f : Folder} {name : Text} (h : f.find? name ≠ none) (spot : Spot) (e : Entry) :
    (f.put spot e).find? name ≠ none := by
  cases spot with
  | whole => exact h
  | above => exact h
  | elsewhere place => exact h
  | entry other =>
    rw [put, find?_insert]
    split
    · simp
    · exact h

end Folder

namespace Disk

variable {d d' : Disk} {name : Text} {bytes : List UInt8}

/-- The folder with an entry under a short name, which is made if there is none to be seen. -/
def ready (d : Disk) (short : Text) : Except Fault Folder := do
  if ← d.host.exists? d.folder short then return d.folder else d.host.make d.folder short

theorem ready_eq_ok {short : Text} {folder : Folder} (hname : Folder.IsName short)
    (h : d.ready short = .ok folder) : folder = d.folder.reserve short := by
  obtain ⟨there, hthere, hready⟩ := bind_eq_ok_iff.mp h
  cases there with
  | true =>
    obtain ⟨found, hlook, hfound⟩ := bind_eq_ok_iff.mp hthere
    obtain rfl := Except.ok.inj hready
    cases found with
    | none => cases hfound
    | some e =>
      obtain ⟨spot, hspot, hentry⟩ := Host.lookup_eq_some_iff.mp hlook
      obtain ⟨-, -, hlocate⟩ := Host.reach_eq_ok_iff.mp hspot
      rw [Host.locate_name _ _ hname] at hlocate
      obtain rfl := Except.ok.inj hlocate
      rw [Folder.reserve, show d.folder.find? short = some e from hentry]
      rfl
  | false =>
    obtain ⟨spot, hspot, hmade⟩ := bind_eq_ok_iff.mp hready
    obtain ⟨-, -, hlocate⟩ := Host.reach_eq_ok_iff.mp hspot
    rw [Host.locate_name _ _ hname] at hlocate
    obtain rfl := Except.ok.inj hlocate
    exact (Except.ok.inj hmade).symm

theorem ready_eq_error {short : Text} {e : Fault} (hname : Folder.IsName short)
    (h : d.ready short = .error e) : e.isDiskFault = true := by
  rcases bind_eq_error_iff.mp h with hthere | ⟨there, -, hready⟩
  · rcases bind_eq_error_iff.mp hthere with hlook | ⟨found, -, hfound⟩
    · exact (Host.lookup_eq_error hlook).1
    · cases hfound
  · cases there with
    | true => cases hready
    | false =>
      rcases bind_eq_error_iff.mp hready with hspot | ⟨spot, -, hmade⟩
      · rcases Host.reach_eq_error hspot with hfault | ⟨-, hnull⟩
        · exact hfault
        · exact absurd hnull hname.null
      · cases hmade

theorem run_addFile (name : Text) (d : Disk) :
    (addFile name).run d = match ShortName.ofName name d.fullNames with
      | .error e => (.error e, d)
      | .ok short => match d.ready short with
        | .error e => (.error e, d)
        | .ok folder => refresh.run { d with folder } := by
  simp only [addFile, Run.run_bind, Run.run_get, Run.run_ofExcept]
  cases ShortName.ofName name d.fullNames with
  | error e => rfl
  | ok short =>
    dsimp only
    rw [ready]
    cases d.host.exists? d.folder short with
    | error e => rfl
    | ok there =>
      cases there with
      | true => rfl
      | false =>
        simp only [bind, Except.bind, Bool.not_false, if_true, Bool.false_eq_true, if_false]
        cases d.host.make d.folder short with
        | error e => rfl
        | ok folder => rfl

/-- The disk when there is a path for a name: the name is listed, or a file was made for it and the disk was
read again. -/
inductive Prepared (d : Disk) (name : Text) : Disk → Prop
  | known {host : Text} (listed : d.hostName? name = some host) : Prepared d name d
  | made {short : Text} {folder : Folder} {names : List (Text × Text)} (unlisted : d.hostName? name = none)
      (named : ShortName.ofName name d.fullNames = .ok short) (made : d.ready short = .ok folder)
      (read : UpToDate { d with folder, names }) : Prepared d name { d with folder, names }

/-- Why there is no path for a name, and what is left on the disk. -/
inductive Unprepared (d : Disk) (name : Text) : Fault → Disk → Prop
  | unnamed (unlisted : d.hostName? name = none)
      (unnamed : ShortName.ofName name d.fullNames = .error .noShortName) : Unprepared d name .noShortName d
  | unmade {short : Text} {e : Fault} (unlisted : d.hostName? name = none)
      (named : ShortName.ofName name d.fullNames = .ok short) (unmade : d.ready short = .error e) :
      Unprepared d name e d
  | unread {short : Text} {folder : Folder} {e : Fault} (unlisted : d.hostName? name = none)
      (named : ShortName.ofName name d.fullNames = .ok short) (made : d.ready short = .ok folder)
      (unread : table { d with folder } = .error e) : Unprepared d name e { d with folder }

theorem Prepared.host (h : Prepared d name d') : d'.host = d.host := by
  cases h <;> rfl

/-- For a name that is not listed there is an entry under its short name now, and the table is up to date. -/
theorem Prepared.reserved (h : Prepared d name d') (hunlisted : d.hostName? name = none) :
    d'.UpToDate ∧ ∃ short, ShortName.ofName name d.fullNames = .ok short ∧
      d'.folder = d.folder.reserve short := by
  cases h with
  | known hhost =>
    rw [hhost] at hunlisted
    cases hunlisted
  | @made short folder names _ hshort hready hread =>
    have hname := Folder.isName_of_isShort (ShortName.isShort_of_ofName hshort)
    exact ⟨hread, short, hshort, ready_eq_ok hname hready⟩

theorem newPath_cases (d : Disk) (name : Text) :
    (∃ d', (newPath name).run d = (.ok (d'.path name), d') ∧ Prepared d name d') ∨
      ∃ e d', (newPath name).run d = (.error e, d') ∧ Unprepared d name e d' := by
  simp only [newPath, Run.run_bind, Run.run_get]
  cases hhost : d.hostName? name with
  | some host =>
    have hpath : d.path name = host := by rw [path, hhost, Option.getD_some]
    exact .inl ⟨d, by rw [hpath]; rfl, .known hhost⟩
  | none =>
    simp only [Run.run_bind, run_addFile]
    cases hshort : ShortName.ofName name d.fullNames with
    | error e =>
      obtain rfl := ShortName.ofName_eq_error hshort
      exact .inr ⟨_, d, rfl, .unnamed hhost hshort⟩
    | ok short =>
      dsimp only
      cases hready : d.ready short with
      | error e => exact .inr ⟨e, d, rfl, .unmade hhost hshort hready⟩
      | ok folder =>
        rcases refresh_cases { d with folder } with ⟨names, hread, htable⟩ | ⟨e, hread, htable⟩
        · simp only [hread]
          exact .inl ⟨_, rfl, .made hhost hshort hready htable⟩
        · simp only [hread]
          exact .inr ⟨e, _, rfl, .unread hhost hshort hready htable⟩

/-- Saving fails before there is a path, or it writes to the path of the name. -/
theorem save_cases (d : Disk) (name : Text) (bytes : List UInt8) :
    (∃ e d', (newPath name).run d = (.error e, d') ∧ Unprepared d name e d' ∧
        (save name bytes).run d = (.error e, d')) ∨
      ∃ d' result folder, (newPath name).run d = (.ok (d'.path name), d') ∧ Prepared d name d' ∧
        d'.host.WriteOutcome d'.folder (d'.path name) bytes (result, folder) ∧
        (d'.host.write (d'.path name) bytes).run d'.folder = (result, folder) ∧
        (save name bytes).run d = (result, { d' with folder }) := by
  simp only [save, Run.run_bind]
  rcases newPath_cases d name with ⟨d', hpath, hprepared⟩ | ⟨e, d', hpath, hunprepared⟩
  · right
    have houtcome := d'.host.writeOutcome d'.folder (d'.path name) bytes
    rcases hwrite : (d'.host.write (d'.path name) bytes).run d'.folder with ⟨result, folder⟩
    rw [hwrite] at houtcome
    refine ⟨d', result, folder, hpath, hprepared, houtcome, hwrite, ?_⟩
    simp only [hpath, Run.run_get, onFolder, Run.run_onPart, hwrite]
  · simp only [hpath]
    exact .inl ⟨e, d', rfl, hunprepared, rfl⟩

/-- The path of the name leads to a file with the bytes. -/
structure Contains (d : Disk) (name : Text) (bytes : List UInt8) : Prop where
  null : '\x00' ∉ d.path name
  file : ∃ spot, d.host.locate d.folder (d.path name) = .ok spot ∧
    d.folder.entryAt? spot = some (.file bytes)

/-- The bytes can be loaded under the name, and their number is the size that is told. -/
structure Holds (d : Disk) (name : Text) (bytes : List UInt8) : Prop where
  size : d.size name = .ok bytes.length
  load : d.load name = .ok bytes

instance (d : Disk) (name : Text) (bytes : List UInt8) : Decidable (d.Holds name bytes) :=
  @decidable_of_iff _ (d.size name = .ok bytes.length ∧ d.load name = .ok bytes)
    ⟨fun h => ⟨h.1, h.2⟩, fun h => ⟨h.size, h.load⟩⟩
    (@instDecidableAnd _ _ (decidableEqResult _ _) (decidableEqResult _ _))

theorem Contains.holds (h : d.Contains name bytes)
    (hgrants : ∀ call ∈ [HostCall.look, .measure, .read], d.host.refuses d.folder call (d.path name) = none) :
    d.Holds name bytes := by
  obtain ⟨spot, hspot, hfile⟩ := h.file
  obtain ⟨hthere, hsize, hread⟩ := Host.read_of_locate h.null hspot hfile hgrants
  have hpath : d.existingPath name = .ok (d.path name) := by
    rw [existingPath, hthere]
    rfl
  constructor
  case size =>
    rw [Disk.size, hpath]
    exact hsize
  case load =>
    rw [Disk.load, hpath]
    exact hread

/-- After bytes were saved under a name, it leads to a file with these bytes. -/
theorem contains_of_save (h : (save name bytes).run d = (.ok (), d')) : d'.Contains name bytes := by
  rcases save_cases d name bytes with ⟨e, d₁, -, -, hsave⟩ | ⟨d₁, result, folder, -, -, hwrite, -, hsave⟩
  · rw [hsave] at h
    cases h
  · rw [hsave] at h
    cases h
    cases hwrite with
    | written hopens _ =>
      -- Writing leaves the table alone, so the path of the name is still the one that was written to.
      obtain ⟨hnull, -, hspot⟩ := Host.reach_eq_ok_iff.mp hopens.reached
      exact ⟨hnull, _, Host.locate_put hspot hopens.free bytes, Folder.entryAt?_put hopens.free _⟩

theorem holds_of_save (hd : d.host.ReadsBack) (h : (save name bytes).run d = (.ok (), d')) :
    d'.Holds name bytes := by
  have hcontains := contains_of_save h
  rcases save_cases d name bytes with ⟨e, d₁, -, -, hsave⟩ |
      ⟨d₁, result, folder, -, hprepared, -, hwrite, hsave⟩
  · rw [hsave] at h
    cases h
  · rw [hsave] at h
    cases h
    exact hcontains.holds ((hprepared.host ▸ hd) _ _ _ _ hwrite)

end Disk

namespace Machine

/-- The `n` bytes from `a` on in `m` stand from `b` on in `m'`, and nothing else in memory changed. -/
structure Restores (m m' : Machine) (a n b : Nat) : Prop where
  size : m'.memory.size = m.memory.size
  inside : ∀ k < n, m'.memory.get (b + k) = m.memory.get (a + k)
  outside : ∀ k, k < b ∨ b + n ≤ k → m'.memory.get k = m.memory.get k

theorem holds_of_saveFile {m m' : Machine} (hm : m.disk.host.ReadsBack) {name : Text} {a n : Int}
    (h : (saveFile name a n).run m = (.ok (), m')) :
    m'.memory = m.memory ∧ m'.disk.Holds name (m.memory.readData a n) := by
  rw [run_saveFile] at h
  obtain ⟨hok, rfl⟩ := Prod.mk.inj h
  exact ⟨rfl, Disk.holds_of_save hm (Prod.ext hok rfl)⟩

theorem restores_slice {m m' : Machine} {a n b : Nat} (hb : b + n ≤ m.memory.size)
    (h : m'.memory = m.memory.writeData b (m.memory.slice a n)) : Restores m m' a n b := by
  rw [Memory.writeData_inside (by rwa [Bank.length_slice])] at h
  constructor
  case size =>
    rw [h]
    exact Bank.size_write ..
  case inside =>
    intro k hk
    rw [h, Bank.get_write, if_pos (by omega), Nat.add_sub_cancel_left, Bank.getElem?_slice, if_pos hk]
    rfl
  case outside =>
    intro k hk
    rw [h]
    exact Bank.get_write_outside (by rwa [Bank.length_slice])

/-- What was saved is loaded, if the host reads back what it wrote: to whatever place it goes, the bytes are the
ones that were saved, and the file is as long as they are. -/
theorem loadFile_after_saveFile (m m' : Machine) (name : Text) (a n b : Nat)
    (hsize : m.memory.size = 65536) (ha : a + n ≤ 65536) (hb : b + n ≤ 65536)
    (hhost : m.disk.host.ReadsBack) (hsave : (saveFile name a n).run m = (.ok (), m')) :
    ∃ m'', (loadFile name b).run m' = (.ok (), m'') ∧ Restores m m'' a n b ∧
      m''.disk.size name = .ok n := by
  obtain ⟨hmemory, hholds⟩ := holds_of_saveFile hhost hsave
  have hbytes : m.memory.readData a n = m.memory.slice a n := Memory.between_inside (by omega)
  rw [hbytes] at hholds
  refine ⟨{ m' with memory := m'.memory.writeData b (m.memory.slice a n) }, ?_, ?_, ?_⟩
  · rw [run_loadFile, hholds.load]
  · apply restores_slice (by omega)
    rw [hmemory]
  · rw [hholds.size, Bank.length_slice]

/-- A machine with some bytes in memory, and a folder with a file in it on the disk. -/
def withFolder : Machine where
  memory := Memory.fresh.write 100 [1, 2, 3, 4]
  disk := { folder := {
    entries := [("NOTES.TXT".toList, .file [9]), ("sub".toList, .folder "sub".toList)]
    elsewhere := [("sub/notes".toList, .file [7, 7])] } }

/-- The same machine on a host where every path that leaves the folder leads to a place of its own. -/
def withOutside : Machine :=
  { withFolder with disk.host :=
    { Host.alone with leads := fun _ path => .ok (.elsewhere path), steady := fun _ _ _ _ hspot _ => hspot } }

/-- The name leads out of the folder, and the bytes are loaded over a part of themselves. -/
theorem loadFile_after_saveFile_outside :
    withOutside.memory.size = 65536 ∧ 100 + 4 ≤ 65536 ∧ 102 + 4 ≤ 65536 ∧ withOutside.disk.host.ReadsBack ∧
      ∃ m', (saveFile "../OUT.BIN".toList (100 : Nat) (4 : Nat)).run withOutside = (.ok (), m') ∧
        ∃ m'', (loadFile "../OUT.BIN".toList (102 : Nat)).run m' = (.ok (), m'') ∧
          Restores withOutside m'' 100 4 102 ∧ m''.disk.size "../OUT.BIN".toList = .ok 4 := by
  have hsize : withOutside.memory.size = 65536 := Bank.size_write ..
  have hhost : withOutside.disk.host.ReadsBack := fun _ _ _ _ _ _ _ => rfl
  have hbytes : withOutside.memory.readData (100 : Nat) (4 : Nat) = [1, 2, 3, 4] := by decide +kernel
  have hok : ((Disk.save "../OUT.BIN".toList [1, 2, 3, 4]).run withOutside.disk).1 = .ok () := by
    decide +kernel
  have hsave : (saveFile "../OUT.BIN".toList (100 : Nat) (4 : Nat)).run withOutside =
      (.ok (), ((saveFile "../OUT.BIN".toList (100 : Nat) (4 : Nat)).run withOutside).2) := by
    rw [run_saveFile, hbytes, hok]
  refine ⟨hsize, by decide, by decide, hhost, _, hsave, ?_⟩
  exact loadFile_after_saveFile withOutside _ _ 100 4 102 hsize (by decide) (by decide) hhost hsave

end Machine

namespace Disk

variable {d d' : Disk} {name : Text} {bytes : List UInt8}

/-- The host refuses to look for the file or to write it. -/
def SaveRefused (d : Disk) (name : Text) (bytes : List UInt8) : Prop :=
  ∃ e : Fault, e.isDiskFault = true ∧ (d.hasFile name = .error e ∨
    d.hasFile name = .ok false ∧ ((save name bytes).run d).1 = .error e)

/-- Saving makes an empty file for the name before it writes: the name is not listed, its short name is free, and
the host makes the file. -/
def MakesFile (d : Disk) (name : Text) : Prop :=
  d.hostName? name = none ∧ ∃ short, ShortName.ofName name d.fullNames = .ok short ∧
    d.folder.find? short = none ∧ d.host.exists? d.folder short = .ok false ∧
    d.host.refuses d.folder .make short = none

/-- A file is opened to be written, and the write breaks off. What is in the file then was not in it before. -/
def LeavesPart (d : Disk) (name : Text) (bytes : List UInt8) : Prop :=
  ∃ d' path spot n r, (newPath name).run d = (.ok path, d') ∧ d'.host.Opens d'.folder path spot ∧
    d'.host.cuts (d'.folder.put spot (.file [])) path bytes = some (n, r) ∧
    d'.folder.entryAt? spot ≠ some (.file (bytes.take n))

theorem makesFile_iff {short : Text} {folder : Folder} (hunlisted : d.hostName? name = none)
    (hshort : ShortName.ofName name d.fullNames = .ok short) (hready : d.ready short = .ok folder) :
    d.MakesFile name ↔ d.folder.find? short = none := by
  have hname := Folder.isName_of_isShort (ShortName.isShort_of_ofName hshort)
  constructor
  · rintro ⟨-, short', hshort', hfree, -⟩
    rw [hshort] at hshort'
    cases hshort'
    exact hfree
  · intro hfree
    refine ⟨hunlisted, short, hshort, hfree, ?_⟩
    obtain ⟨there, hthere, hmade⟩ := bind_eq_ok_iff.mp hready
    cases there with
    | true =>
      have hsame := ready_eq_ok hname hready
      rw [← Except.ok.inj hmade] at hsame
      exact absurd hfree (Folder.reserve_eq_iff.mp hsame.symm)
    | false =>
      obtain ⟨spot, hspot, -⟩ := bind_eq_ok_iff.mp hmade
      obtain ⟨-, hgranted, -⟩ := Host.reach_eq_ok_iff.mp hspot
      exact ⟨hthere, hgranted⟩

theorem Prepared.folder_eq_iff (h : Prepared d name d') : d'.folder = d.folder ↔ ¬d.MakesFile name := by
  cases h with
  | known hhost => simp [MakesFile, hhost]
  | made hhost hshort hready _ =>
    have hname := Folder.isName_of_isShort (ShortName.isShort_of_ofName hshort)
    rw [makesFile_iff hhost hshort hready, ready_eq_ok hname hready, Folder.reserve_eq_iff]

theorem Unprepared.folder_eq_iff {e : Fault} (h : Unprepared d name e d') :
    d'.folder = d.folder ↔ ¬d.MakesFile name := by
  cases h with
  | unnamed hhost hnone => simp [MakesFile, hnone]
  | @unmade short e hhost hshort hunmade =>
    refine iff_of_true rfl ?_
    rintro ⟨-, short', hshort', -, hthere, hgranted⟩
    rw [hshort] at hshort'
    cases hshort'
    have hname := Folder.isName_of_isShort (ShortName.isShort_of_ofName hshort)
    rw [ready, hthere] at hunmade
    change d.host.make d.folder short = .error e at hunmade
    rw [Host.make, Host.reach_name hname hgranted] at hunmade
    cases hunmade
  | unread hhost hshort hready _ =>
    have hname := Folder.isName_of_isShort (ShortName.isShort_of_ofName hshort)
    rw [makesFile_iff hhost hshort hready, ready_eq_ok hname hready, Folder.reserve_eq_iff]

theorem Prepared.put_ne (h : Prepared d name d') (hmakes : d.MakesFile name) (spot : Spot) (e : Entry) :
    d'.folder.put spot e ≠ d.folder := by
  cases h with
  | known hhost => simp [MakesFile, hhost] at hmakes
  | @made short folder names hhost hshort hready _ =>
    have hname := Folder.isName_of_isShort (ShortName.isShort_of_ofName hshort)
    have hfree := (makesFile_iff hhost hshort hready).mp hmakes
    have hthere : folder.find? short ≠ none := by
      rw [ready_eq_ok hname hready, Folder.find?_reserve, if_pos rfl]
      simp
    intro hsame
    have hstays := Folder.find?_put_ne_none hthere spot e
    rw [hsame] at hstays
    exact hstays hfree

/-- Saving that fails leaves the folder as it was, unless it made a file or left a part of the bytes. -/
theorem save_folder_eq_iff {e : Fault} (h : (save name bytes).run d = (.error e, d')) :
    d'.folder = d.folder ↔ ¬(d.MakesFile name ∨ d.LeavesPart name bytes) := by
  rcases save_cases d name bytes with ⟨e', d₁, hpath, hunprepared, hsave⟩ |
      ⟨d₁, result, folder, hpath, hprepared, hwrite, hrun, hsave⟩
  · rw [hsave] at h
    cases h
    rw [hunprepared.folder_eq_iff, not_or, iff_self_and]
    rintro - ⟨d₂, path, spot, n, r, hpath', -⟩
    rw [hpath] at hpath'
    cases hpath'
  · rw [hsave] at h
    cases h
    -- A part that is left is in the folder that writing left.
    have hpart (hpart : d.LeavesPart name bytes) : folder ≠ d₁.folder := by
      obtain ⟨d₂, path, spot, n, r, hpath', hopens, hcut, hold⟩ := hpart
      rw [hpath] at hpath'
      cases hpath'
      rw [Host.run_write_of_opens hopens, hcut] at hrun
      obtain ⟨-, rfl⟩ := Prod.mk.inj hrun
      exact fun hsame => hold ((Folder.put_eq_iff hopens.free _).mp hsame)
    cases hwrite with
    | refused =>
      change d₁.folder = d.folder ↔ _
      rw [hprepared.folder_eq_iff, not_or, iff_self_and]
      exact fun _ hleft => hpart hleft rfl
    | @broken spot n r hopens hcut =>
      change d₁.folder.put spot _ = d.folder ↔ _
      constructor
      · intro hsame
        have hmakes : ¬d.MakesFile name := fun hmakes => hprepared.put_ne hmakes _ _ hsame
        rintro (hmakes' | hleft)
        · exact hmakes hmakes'
        · exact hpart hleft (hsame.trans (hprepared.folder_eq_iff.mpr hmakes).symm)
      · rw [not_or]
        rintro ⟨hmakes, hleft⟩
        rw [← hprepared.folder_eq_iff.mpr hmakes, Folder.put_eq_iff hopens.free]
        by_contra hold
        exact hleft ⟨d₁, _, spot, n, r, hpath, hopens, hcut, hold⟩

end Disk

namespace Machine

/-- What comes of saving `n` bytes from `a` on under a name, when the line returns. A file that is there
already counts as a success. -/
inductive SaveOutcome (m m' : Machine) (name : Text) (a n : Int) : Prop
  | existing (there : m.disk.hasFile name = .ok true) (code : m'.numeric ['R'] = .ok 0)
      (disk : m'.disk = m.disk)
  | unseen {e : Fault} (fault : e.isDiskFault = true) (there : m.disk.hasFile name = .error e)
      (code : m'.numeric ['R'] = .ok 1) (disk : m'.disk = m.disk)
  | written (there : m.disk.hasFile name = .ok false)
      (saved : ((Disk.save name (m.memory.readData a n)).run m.disk).1 = .ok ())
      (code : m'.numeric ['R'] = .ok 0) (holds : m'.disk.Contains name (m.memory.readData a n))
  | unwritten {e : Fault} (fault : e.isDiskFault = true) (there : m.disk.hasFile name = .ok false)
      (saved : ((Disk.save name (m.memory.readData a n)).run m.disk).1 = .error e)
      (code : m'.numeric ['R'] = .ok 1)
      (left : m'.disk.folder = m.disk.folder ↔
        ¬(m.disk.MakesFile name ∨ m.disk.LeavesPart name (m.memory.readData a n)))

theorem saveOutcome {m : Machine} (hsize : 65536 ≤ m.memory.size) {line name : Text} {a n : Int}
    (hline : (Request.save name a n).Spelled m line) (hreturns : ((runLine line).run m).1 = .ok ()) :
    SaveOutcome m ((runLine line).run m).2 name a n := by
  obtain ⟨m', hrun, hdisk, hvalue⟩ := run_request hsize hline
  rw [hrun] at hreturns ⊢
  -- A fault has the code one, or the line does not return.
  have hrefused {e : Fault} (he : (((Request.save name a n).perform m.memory).run m.disk).1 = .error e) :
      e.isDiskFault = true ∧ m'.numeric ['R'] = .ok 1 := by
    rw [he] at hreturns hvalue
    cases hfault : e.isDiskFault with
    | false => simp [Request.reply, Request.code, Command.refused, hfault, Except.map] at hreturns
    | true => exact ⟨rfl, hvalue 1 (by simp [Request.reply, Request.code, Command.refused, hfault])⟩
  rw [Request.run_perform_save] at hdisk hvalue hrefused
  cases hthere : m.disk.hasFile name with
  | error e =>
    simp only [hthere] at hdisk hrefused
    obtain ⟨hfault, hcode⟩ := hrefused rfl
    exact .unseen hfault hthere hcode hdisk
  | ok there =>
    cases there with
    | true =>
      simp only [hthere] at hdisk hvalue
      exact .existing hthere (hvalue 0 rfl) hdisk
    | false =>
      simp only [hthere] at hdisk hvalue hrefused
      rcases hsave : (Disk.save name (m.memory.readData a n)).run m.disk with ⟨e | ⟨⟩, d⟩
      · rw [hsave] at hdisk hrefused
        obtain ⟨hfault, hcode⟩ := hrefused rfl
        exact .unwritten hfault hthere (by rw [hsave]) hcode (hdisk ▸ Disk.save_folder_eq_iff hsave)
      · rw [hsave] at hdisk hvalue
        exact .written hthere (by rw [hsave]) (hvalue 0 rfl) (hdisk ▸ Disk.contains_of_save hsave)

/-- `R` tells what saving `n` bytes from `a` on under a name did to the disk: it is two for a file that was
there already, one for a refusal, and zero only if the bytes were written. -/
structure SaveReported (m m' : Machine) (name : Text) (a n : Int) : Prop where
  existing : m.disk.hasFile name = .ok true →
    m'.numeric ['R'] = .ok 2 ∧ m'.disk.folder = m.disk.folder
  refused : m.disk.SaveRefused name (m.memory.readData a n) →
    m'.numeric ['R'] = .ok 1 ∧ m'.disk.folder = m.disk.folder
  written : m'.numeric ['R'] = .ok 0 → m'.disk.Contains name (m.memory.readData a n)

theorem SaveOutcome.reported_iff {m m' : Machine} {name : Text} {a n : Int}
    (h : SaveOutcome m m' name a n) :
    SaveReported m m' name a n ↔ m.disk.hasFile name ≠ .ok true ∧
      (m.disk.hasFile name = .ok false → m.disk.SaveRefused name (m.memory.readData a n) →
        ¬(m.disk.MakesFile name ∨ m.disk.LeavesPart name (m.memory.readData a n))) := by
  cases h with
  | existing hthere hcode hdisk =>
    constructor
    · intro hreported
      have htwo := (hreported.existing hthere).1
      rw [hcode] at htwo
      cases htwo
    · rintro ⟨hnew, -⟩
      exact absurd hthere hnew
  | unseen hfault hthere hcode hdisk =>
    constructor
    · intro _
      simp [hthere]
    · intro _
      constructor
      case existing => simp [hthere]
      case refused => exact fun _ => ⟨hcode, by rw [hdisk]⟩
      case written => simp [hcode]
  | written hthere hsaved hcode hholds =>
    have hgranted : ¬m.disk.SaveRefused name (m.memory.readData a n) := by
      rintro ⟨e, -, hunseen | ⟨-, hunsaved⟩⟩
      · rw [hthere] at hunseen
        cases hunseen
      · rw [hsaved] at hunsaved
        cases hunsaved
    constructor
    · intro _
      exact ⟨by simp [hthere], fun _ hrefused => absurd hrefused hgranted⟩
    · intro _
      constructor
      case existing => simp [hthere]
      case refused => exact fun hrefused => absurd hrefused hgranted
      case written => exact fun _ => hholds
  | unwritten hfault hthere hsaved hcode hleft =>
    have hrefused : m.disk.SaveRefused name (m.memory.readData a n) :=
      ⟨_, hfault, .inr ⟨hthere, hsaved⟩⟩
    constructor
    · intro hreported
      refine ⟨by simp [hthere], fun _ _ => ?_⟩
      exact hleft.mp (hreported.refused hrefused).2
    · rintro ⟨-, hnothing⟩
      have hfolder := hleft.mpr (hnothing hthere hrefused)
      constructor
      case existing => simp [hthere]
      case refused => exact fun _ => ⟨hcode, hfolder⟩
      case written => simp [hcode]

/-- A line that saves a file and returns has told in `R` what it did just when there was no such file, and a write
that was refused left neither an empty file nor a part of the bytes. -/
theorem saveReported_iff (m : Machine) (line name : Text) (a n : Int) (hsize : 65536 ≤ m.memory.size)
    (hline : (Request.save name a n).Spelled m line) (hreturns : ((runLine line).run m).1 = .ok ()) :
    SaveOutcome m ((runLine line).run m).2 name a n ∧
      (SaveReported m ((runLine line).run m).2 name a n ↔ m.disk.hasFile name ≠ .ok true ∧
        (m.disk.hasFile name = .ok false → m.disk.SaveRefused name (m.memory.readData a n) →
          ¬(m.disk.MakesFile name ∨ m.disk.LeavesPart name (m.memory.readData a n)))) := by
  have houtcome := saveOutcome hsize hline hreturns
  exact ⟨houtcome, houtcome.reported_iff⟩

/-- The name leads out of the folder. The bytes are written there, and an empty file is made besides. -/
theorem saveReported_iff_outside :
    65536 ≤ withOutside.memory.size ∧
      (Request.save "../OUT.BIN".toList 100 4).Spelled withOutside "SAVE \"../OUT.BIN\" 100 4".toList ∧
      ((runLine "SAVE \"../OUT.BIN\" 100 4".toList).run withOutside).1 = .ok () ∧
      SaveReported withOutside ((runLine "SAVE \"../OUT.BIN\" 100 4".toList).run withOutside).2
        "../OUT.BIN".toList 100 4 := by
  have hsize : 65536 ≤ withOutside.memory.size := by decide +kernel
  have hparse : Token.parse "SAVE \"../OUT.BIN\" 100 4".toList =
      .ok [.word "SAVE".toList, .quote "\"../OUT.BIN\"".toList, .number 100, .number 4] := by
    decide +kernel
  have hline : (Request.save "../OUT.BIN".toList 100 4).Spelled withOutside
      "SAVE \"../OUT.BIN\" 100 4".toList :=
    .save hparse (by decide +kernel) (by decide +kernel) rfl rfl
  have hreturns : ((runLine "SAVE \"../OUT.BIN\" 100 4".toList).run withOutside).1 = .ok () := by
    decide +kernel
  have hsaved : ((Disk.save "../OUT.BIN".toList (withOutside.memory.readData 100 4)).run
      withOutside.disk).1 = .ok () := by decide +kernel
  refine ⟨hsize, hline, hreturns, ?_⟩
  apply (saveReported_iff withOutside _ _ 100 4 hsize hline hreturns).2.mpr
  refine ⟨by decide +kernel, ?_⟩
  rintro hthere ⟨e, -, hunseen | ⟨-, hunsaved⟩⟩
  · rw [hthere] at hunseen
    cases hunseen
  · rw [hsaved] at hunsaved
    cases hunsaved

/-- Saving over a file leaves it alone and answers zero, and saving into a folder that is not there leaves an
empty file behind. -/
theorem save_unreported :
    ((runLine "SAVE \"NOTES.TXT\" 100 4".toList).run withFolder).1 = .ok () ∧
      ¬SaveReported withFolder ((runLine "SAVE \"NOTES.TXT\" 100 4".toList).run withFolder).2
        "NOTES.TXT".toList 100 4 ∧
      ((runLine "SAVE \"none/x\" 100 4".toList).run withFolder).1 = .ok () ∧
      ¬SaveReported withFolder ((runLine "SAVE \"none/x\" 100 4".toList).run withFolder).2
        "none/x".toList 100 4 := by
  refine ⟨by decide +kernel, ?_, by decide +kernel, ?_⟩
  · intro hreported
    have hcode : ((runLine "SAVE \"NOTES.TXT\" 100 4".toList).run withFolder).2.numeric ['R'] =
        .ok 0 := by decide +kernel
    have htwo := (hreported.existing (by decide +kernel)).1
    rw [hcode] at htwo
    cases htwo
  · intro hreported
    have hrefused : withFolder.disk.SaveRefused "none/x".toList (withFolder.memory.readData 100 4) :=
      ⟨.noSuchFile, rfl, .inr ⟨by decide +kernel, by decide +kernel⟩⟩
    have hchanged : ((runLine "SAVE \"none/x\" 100 4".toList).run withFolder).2.disk.folder ≠
        withFolder.disk.folder := by decide +kernel
    exact hchanged (hreported.refused hrefused).2

end Machine
end BasicMachine
