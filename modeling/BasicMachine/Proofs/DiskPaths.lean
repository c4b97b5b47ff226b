import BasicMachine.Proofs.NameStability

/-! Where the names of files lead. A name that the table lists leads to a file of the folder, and so does every
short name that is made. A name that the table does not list is taken as a path from the folder, as it was
given, so it stays in the folder just when it is a path of a single step and does not go up. -/
namespace BasicMachine

theorem Text.not_mem_of_mem_splitAt {sep : Char} {t piece : Text} (h : piece ∈ splitAt sep t) :
    sep ∉ piece := by
  induction t generalizing piece with
  | nil =>
    rw [splitAt, List.mem_singleton] at h
    simp [h]
  | cons c t ih =>
    rw [splitAt] at h
    split at h
    · rcases List.mem_cons.mp h with rfl | hlater
      · simp
      · exact ih hlater
    · next hc =>
      cases hrest : splitAt sep t with
      | nil => exact absurd hrest (splitAt_ne_nil sep t)
      | cons first pieces =>
        rw [hrest] at h ih
        rcases List.mem_cons.mp h with rfl | hlater
        · have hfirst : sep ∉ first := ih (by simp)
          simp [Ne.symm hc, hfirst]
        · exact ih (List.mem_cons_of_mem _ hlater)

namespace Folder

/-- A path of the host: the steps to take from its root or from where the machine was started. -/
structure HostPath where
  fromRoot : Bool
  steps : List Text
  deriving DecidableEq, Repr

/-- The path of the folder joined with a text. A text that begins with a slash leads away from the root. -/
def joined (path : Text) : HostPath :=
  if path.head? = some '/' then ⟨true, steps path⟩ else ⟨false, name :: steps path⟩

/-- A single step down: no text that stands for the folder itself or the one above, and no slash. -/
structure IsStep (t : Text) : Prop where
  nonempty : t ≠ []
  dot : t ≠ ['.']
  dots : t ≠ ['.', '.']
  slash : '/' ∉ t

/-- The path is the folder joined with a single step. -/
def Confined (path : Text) : Prop := ∃ step, IsStep step ∧ joined path = joined step

theorem IsName.isStep {t : Text} (h : IsName t) : IsStep t := ⟨h.nonempty, h.dot, h.dots, h.slash⟩

theorem joined_of_isStep {t : Text} (h : IsStep t) : joined t = ⟨false, [name, t]⟩ := by
  have hsteps : steps t = [t] := by
    rw [steps, Text.splitAt_of_not_mem h.slash]
    simp [h.nonempty, h.dot]
  have hhead : t.head? ≠ some '/' := fun hc => h.slash (List.mem_of_mem_head? hc)
  rw [joined, if_neg hhead, hsteps]

theorem IsStep.confined {t : Text} (h : IsStep t) : Confined t := ⟨t, h, rfl⟩

/-- Empty steps and single dots do not count, so a path stays in the folder if one step is left and it does
not go up. -/
theorem confined_iff (path : Text) :
    Confined path ↔ path.head? ≠ some '/' ∧ ∃ step, steps path = [step] ∧ step ≠ ['.', '.'] := by
  constructor
  · rintro ⟨step, hstep, hjoined⟩
    rw [joined_of_isStep hstep, joined] at hjoined
    split at hjoined
    · cases hjoined
    · next hhead =>
      have hsteps : steps path = [step] := (List.cons.inj (congrArg HostPath.steps hjoined)).2
      exact ⟨hhead, step, hsteps, hstep.dots⟩
  · rintro ⟨hhead, step, hsteps, hdots⟩
    have hmem : step ∈ steps path := by simp [hsteps]
    obtain ⟨hpiece, hkept⟩ := List.mem_filter.mp hmem
    simp only [Bool.and_eq_true, Bool.not_eq_true', List.isEmpty_eq_false_iff, bne_iff_ne] at hkept
    have hstep : IsStep step := ⟨hkept.1, hkept.2, hdots, Text.not_mem_of_mem_splitAt hpiece⟩
    refine ⟨step, hstep, ?_⟩
    rw [joined_of_isStep hstep, joined, if_neg hhead, hsteps]

instance (path : Text) : Decidable (Confined path) :=
  decidable_of_iff (path.head? ≠ some '/' ∧ (steps path).length = 1 ∧ ['.', '.'] ∉ steps path) (by
    rw [confined_iff, List.length_eq_one_iff]
    constructor
    · rintro ⟨hhead, ⟨step, hsteps⟩, hdots⟩
      rw [hsteps, List.mem_singleton] at hdots
      exact ⟨hhead, step, hsteps, Ne.symm hdots⟩
    · rintro ⟨hhead, step, hsteps, hdots⟩
      rw [hsteps, List.mem_singleton]
      exact ⟨hhead, ⟨step, rfl⟩, Ne.symm hdots⟩)

theorem confined_of_ofName {name short : Text} {existing : List Text}
    (h : ShortName.ofName name existing = .ok short) : Confined short :=
  (isName_of_isShort (ShortName.isShort_of_ofName h)).isStep.confined

theorem isName_of_mem_reserve {f : Folder} (hf : ∀ e ∈ f.entries, IsName e.1) {short : Text}
    (hshort : IsName short) : ∀ e ∈ (f.reserve short).entries, IsName e.1 := by
  intro e he
  rw [reserve] at he
  split at he
  · exact hf e he
  · rcases mem_setNamed he with rfl | hold
    · exact hshort
    · exact hf e hold

end Folder

namespace Disk

open Folder (Confined IsName)

/-- The table is the one that reading these files gave, whatever became of the folder since. -/
def TableOf (d : Disk) (files : List Text) : Prop := ShortName.assign [] files = .ok d.names

theorem UpToDate.isName_of_mem {d : Disk} (h : d.UpToDate) (hf : ∀ e ∈ d.folder.entries, IsName e.1) :
    ∀ file ∈ d.fullNames, IsName file := by
  intro file hfile
  have hlisted := (d.host.listed_perm d.folder).subset (h.sublist_listed.subset hfile)
  obtain ⟨e, he, rfl⟩ := List.mem_map.mp hlisted
  exact hf e he

section Resolution

variable {d : Disk} {files : List Text} (htable : d.TableOf files)
  (hfiles : ∀ file ∈ files, IsName file)
include htable hfiles

theorem confined_of_hostName? {name host : Text} (h : d.hostName? name = some host) :
    Confined name ∧ Confined host := by
  obtain ⟨e, hfind, rfl⟩ := Option.map_eq_some_iff.mp h
  have hmem := List.mem_of_find?_eq_some hfind
  have hname : e.2 = name := by simpa using List.find?_some hfind
  constructor
  · rw [← hname]
    exact (Folder.isName_of_isShort (ShortName.isShort_of_assign htable e hmem)).isStep.confined
  · apply (hfiles e.1 _).isStep.confined
    rw [← ShortName.assign_hosts htable]
    exact List.mem_map_of_mem hmem

/-- The path of a name stays in the folder just when the name does. -/
theorem confined_path_iff (name : Text) : Confined (d.path name) ↔ Confined name := by
  rw [path]
  cases hhost : d.hostName? name with
  | none => rfl
  | some host =>
    obtain ⟨hname, hfile⟩ := confined_of_hostName? htable hfiles hhost
    exact iff_of_true hfile hname

/-- The path that is made ready for a new file stays in the folder just when the name does. -/
theorem confined_newPath_iff (hf : ∀ e ∈ d.folder.entries, IsName e.1) {name path : Text} {d' : Disk}
    (h : (newPath name).run d = (.ok path, d')) : Confined path ↔ Confined name := by
  rcases newPath_cases d name with ⟨d₁, hrun, hprepared⟩ | ⟨e, d₁, hrun, -⟩
  · rw [hrun] at h
    obtain ⟨rfl, rfl⟩ := Prod.mk.inj h |>.imp_left Except.ok.inj
    cases hhost : d.hostName? name with
    | some host =>
      cases hprepared with
      | known => exact confined_path_iff htable hfiles name
      | made hunlisted => exact absurd (hhost.symm.trans hunlisted) (by simp)
    | none =>
      obtain ⟨hread, short, hshort, hfolder⟩ := hprepared.reserved hhost
      have hvalid := Folder.isName_of_isShort (ShortName.isShort_of_ofName hshort)
      have htable₁ : d₁.TableOf d₁.fullNames := hread.assign
      refine confined_path_iff htable₁ (hread.isName_of_mem ?_) name
      rw [hfolder]
      exact Folder.isName_of_mem_reserve hf hvalid
  · rw [hrun] at h
    cases h

end Resolution

/-- With any table that reading some files gave, a name leads into the folder exactly if it is a path of a
single step that does not go up. This holds of the path of the name, of the path to an entry that is there,
and of the path for a new file. The short name that an entry is moved to always leads into the folder. -/
theorem resolution_confined_iff (d : Disk) (files : List Text) (name : Text) (htable : d.TableOf files)
    (hfiles : ∀ file ∈ files, IsName file) (hf : ∀ e ∈ d.folder.entries, IsName e.1) :
    (Confined (d.path name) ↔ Confined name) ∧
      (∀ path, d.existingPath name = .ok path → (Confined path ↔ Confined name)) ∧
      (∀ path d', (newPath name).run d = (.ok path, d') → (Confined path ↔ Confined name)) ∧
      ∀ short, ShortName.ofName name d.fullNames = .ok short → Confined short := by
  refine ⟨confined_path_iff htable hfiles name, ?_, ?_, ?_⟩
  · intro path hpath
    rw [(existingPath_eq_ok hpath).1]
    exact confined_path_iff htable hfiles name
  · intro path d' hrun
    exact confined_newPath_iff htable hfiles hf hrun
  · intro short hshort
    exact Folder.confined_of_ofName hshort

/-- The name `./NOTES.TXT/` is not listed, but it is a path of one step all the same. -/
theorem resolution_confined_oneStep :
    readRivals.TableOf readRivals.fullNames ∧
      (∀ file ∈ readRivals.fullNames, IsName file) ∧
      (∀ e ∈ readRivals.folder.entries, IsName e.1) ∧
      readRivals.existingPath "./NOTES.TXT/".toList = .ok "./NOTES.TXT/".toList ∧
      Confined "./NOTES.TXT/".toList := by
  have htable : readRivals.TableOf readRivals.fullNames := upToDate_readRivals.assign
  have hfiles : ∀ file ∈ readRivals.fullNames, IsName file := by decide +kernel
  have hfound : readRivals.existingPath "./NOTES.TXT/".toList = .ok "./NOTES.TXT/".toList := by
    decide +kernel
  obtain ⟨-, hexisting, -⟩ := resolution_confined_iff readRivals _ "./NOTES.TXT/".toList
    htable hfiles isListing_readRivals.named
  exact ⟨htable, hfiles, isListing_readRivals.named, hfound,
    (hexisting _ hfound).mpr (by decide +kernel)⟩

/-- The two dots lead to the folder above, which is there, so a command that asks for an entry gets it. -/
theorem existingPath_leads_above :
    existingPath {} ['.', '.'] = .ok ['.', '.'] ∧ ¬Confined ['.', '.'] := by
  decide +kernel

end Disk
end BasicMachine
