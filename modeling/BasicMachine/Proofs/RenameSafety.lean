import BasicMachine.Proofs.SavedFiles

/-! Renaming loses no file. The table of short names can be behind the folder: saving under a name that is not a
short name makes a file that it does not list. But no such file has the name of a short name, so the short name
that an entry moves to is never the name of a file. -/
namespace BasicMachine

namespace Folder

/-- One entry of the folder changed its name, to one that was free, and all others are as they were. -/
def Moved (f f' : Folder) : Prop :=
  ∃ old new e, f.find? old = some e ∧ f.find? new = none ∧
    ∀ k, f'.find? k = if k = new then some e else if k = old then none else f.find? k

theorem find?_eq_none {f : Folder} {name : Text} (hfile : ∀ bytes, f.find? name ≠ some (.file bytes))
    (hfolder : ∀ place, f.find? name ≠ some (.folder place)) : f.find? name = none := by
  cases hfind : f.find? name with
  | none => rfl
  | some e =>
    cases e with
    | file bytes => exact absurd hfind (hfile bytes)
    | folder place => exact absurd hfind (hfolder place)

theorem card_contents (f : Folder) : f.contents.card = f.fileNames.length := by
  rw [contents, Multiset.coe_card, fileNames, List.length_map]
  induction f.entries with
  | nil => rfl
  | cons e rest ih =>
    obtain ⟨name, e⟩ := e
    cases e with
    | file bytes => simpa [bytesOf?, Entry.isFile] using ih
    | folder place => simpa [bytesOf?, Entry.isFile] using ih

theorem IsListing.reserve {f : Folder} (hf : f.IsListing) {name : Text} (hname : IsName name) :
    (f.reserve name).IsListing := by
  rw [Folder.reserve]
  split
  · exact hf
  · exact hf.insert hname _

end Folder

namespace Disk

variable {d d' : Disk} {name : Text}

/-- What the commands keep true of a disk. The table lists files, and every file that it does not list has a
name that no short name is. -/
structure Sound (d : Disk) : Prop where
  searchable : d.host.Searchable
  listing : d.folder.IsListing
  listed : ∀ host ∈ d.fullNames, ∃ bytes, d.folder.find? host = some (.file bytes)
  distinct : d.fullNames.Nodup
  unlisted : ∀ host bytes, d.folder.find? host = some (.file bytes) → host ∉ d.fullNames →
    ¬ShortName.IsShort host

theorem sound_of_upToDate (hd : d.host.Searchable) (hf : d.folder.IsListing) (h : d.UpToDate) :
    d.Sound := by
  have hnames := fullNames_of_upToDate hd hf h
  constructor
  case searchable => exact hd
  case listing => exact hf
  case listed =>
    intro host hmem
    rw [hnames] at hmem
    exact hf.mem_fileNames_iff.mp hmem
  case distinct =>
    rw [hnames]
    exact hf.nodup_fileNames d.host
  case unlisted =>
    intro host bytes hfile hnot
    rw [hnames] at hnot
    exact absurd (hf.mem_fileNames_iff.mpr ⟨bytes, hfile⟩) hnot

theorem table_eq_noShortName (hd : d.host.Searchable) (hf : d.folder.IsListing) {e : Fault}
    (h : d.table = .error e) : e = .noShortName := by
  rw [table_eq_assign hd hf] at h
  exact ShortName.assign_eq_error h

theorem sound_of_refresh (hd : d.host.Searchable) (hf : d.folder.IsListing)
    (hnamed : (refresh.run d).1 ≠ .error .noShortName) : (refresh.run d).2.Sound := by
  rcases refresh_cases d with ⟨names, hread, htable⟩ | ⟨e, hread, htable⟩
  · rw [hread]
    exact sound_of_upToDate (d := { d with names }) hd hf htable
  · rw [hread, table_eq_noShortName hd hf htable] at hnamed
    exact absurd rfl hnamed

theorem mem_fullNames_of_hostName? {host : Text} (h : d.hostName? name = some host) :
    host ∈ d.fullNames := by
  obtain ⟨e, hfind, rfl⟩ := Option.map_eq_some_iff.mp h
  exact List.mem_map_of_mem (List.mem_of_find?_eq_some hfind)

theorem path_cases (d : Disk) (name : Text) : d.path name = name ∨ d.path name ∈ d.fullNames := by
  rw [path]
  cases hhost : d.hostName? name with
  | none => exact .inl rfl
  | some host => exact .inr (mem_fullNames_of_hostName? hhost)

theorem hasFile_of_isName (hd : d.host.Searchable) (h : Folder.IsName (d.path name)) :
    d.hasFile name = .ok (d.folder.hasFile (d.path name)) := hd.isFile d.folder h

namespace Sound

variable (hd : d.Sound)
include hd

/-- A short name that is made is not the name of a file, listed or not. -/
theorem not_file_of_ofName {short : Text} (h : ShortName.ofName name d.fullNames = .ok short)
    (bytes : List UInt8) : d.folder.find? short ≠ some (.file bytes) := by
  intro hfile
  exact hd.unlisted short bytes hfile (ShortName.not_mem_of_ofName h) (ShortName.isShort_of_ofName h)

theorem isName_of_mem {host : Text} (h : host ∈ d.fullNames) : Folder.IsName host := by
  obtain ⟨bytes, hfile⟩ := hd.listed host h
  exact hd.listing.isName hfile

theorem slash_not_mem_path (hname : '/' ∉ name) : '/' ∉ d.path name := by
  rcases d.path_cases name with hraw | hlisted
  · rwa [hraw]
  · exact (hd.isName_of_mem hlisted).slash

theorem hasFile_of_hostName? {host : Text} (h : d.hostName? name = some host) :
    d.hasFile name = .ok true := by
  have hmem := mem_fullNames_of_hostName? h
  obtain ⟨bytes, hfile⟩ := hd.listed host hmem
  have hpath : d.path name = host := by rw [path, h, Option.getD_some]
  have hname : Folder.IsName (d.path name) := hpath ▸ hd.isName_of_mem hmem
  rw [hasFile_of_isName hd.searchable hname, hpath, Folder.hasFile, hfile]
  rfl

/-- After a file was made for a name with the shape of a short name, there is an entry with this name. -/
theorem find?_of_isShort {short : Text} (hshort : ShortName.ofName name d.fullNames = .ok short)
    (h : ShortName.IsShort name) : ∃ e, (d.folder.reserve short).find? name = some e := by
  rw [Folder.find?_reserve]
  by_cases hmem : name ∈ d.fullNames
  · obtain ⟨bytes, hfile⟩ := hd.listed name hmem
    split
    · exact ⟨_, rfl⟩
    · exact ⟨_, hfile⟩
  · rw [ShortName.ofName_of_isShort h hmem] at hshort
    rw [if_pos (Except.ok.inj hshort)]
    exact ⟨_, rfl⟩

/-- Writing over a listed file, or under a name that is no short name, leaves the table good. -/
theorem write {path : Text} (hname : Folder.IsName path)
    (hpath : path ∈ d.fullNames ∨ ¬ShortName.IsShort path) (bytes : List UInt8) :
    Sound { d with folder := d.folder.insert path (.file bytes) } := by
  constructor
  case searchable => exact hd.searchable
  case listing => exact hd.listing.insert hname _
  case listed =>
    intro host hmem
    simp only [Folder.find?_insert]
    split
    · exact ⟨bytes, rfl⟩
    · exact hd.listed host hmem
  case distinct => exact hd.distinct
  case unlisted =>
    intro host old hfile hnot
    rw [Folder.find?_insert] at hfile
    split at hfile
    · next heq =>
      rw [heq] at hnot ⊢
      exact hpath.resolve_left hnot
    · exact hd.unlisted host old hfile hnot

/-- The disk is sound when a file was made for a name that had none. What can be opened under the name then is a
listed file, or it has a name that no short name is. -/
theorem prepared (hnew : d.hasFile name = .ok false) (h : Prepared d name d') :
    d'.Sound ∧ ((∀ place, d'.folder.find? (d'.path name) ≠ some (.folder place)) →
      d'.path name ∈ d'.fullNames ∨ ¬ShortName.IsShort (d'.path name)) := by
  have hunlisted : d.hostName? name = none := by
    cases hhost : d.hostName? name with
    | none => rfl
    | some host =>
      rw [hd.hasFile_of_hostName? hhost] at hnew
      cases hnew
  obtain ⟨hread, short, hshort, hfolder⟩ := h.reserved hunlisted
  have hvalid := Folder.isName_of_isShort (ShortName.isShort_of_ofName hshort)
  have hhost : d'.host.Searchable := h.host ▸ hd.searchable
  have hf : d'.folder.IsListing := hfolder ▸ hd.listing.reserve hvalid
  refine ⟨sound_of_upToDate hhost hf hread, fun hfree => ?_⟩
  rcases path_cases d' name with hraw | hlisted
  · rw [hraw] at hfree ⊢
    by_cases hshape : ShortName.IsShort name
    · -- There is some entry under the name, and it is no folder, so it is a file and was listed.
      left
      obtain ⟨e, he⟩ := hd.find?_of_isShort hshort hshape
      rw [← hfolder] at he
      rw [fullNames_of_upToDate hhost hf hread, hf.mem_fileNames_iff]
      cases e with
      | file bytes => exact ⟨bytes, he⟩
      | folder place => exact absurd he (hfree place)
    · exact .inr hshape
  · exact .inl hlisted

/-- A file that is saved under a new name is listed, or it has a name that no short name is. -/
theorem save (hname : '/' ∉ name) (hnew : d.hasFile name = .ok false) (bytes : List UInt8)
    (hnamed : ((Disk.save name bytes).run d).1 ≠ .error .noShortName) :
    ((Disk.save name bytes).run d).2.Sound := by
  rcases save_cases d name bytes with ⟨e, d', -, hunprepared, hsave⟩ |
      ⟨d', result, folder, -, hprepared, hwrite, -, hsave⟩
  · rw [hsave] at hnamed ⊢
    cases hunprepared with
    | unnamed => exact absurd rfl hnamed
    | unmade => exact hd
    | @unread short folder e _ hshort hready hunread =>
      have hvalid := Folder.isName_of_isShort (ShortName.isShort_of_ofName hshort)
      have hf : folder.IsListing := ready_eq_ok hvalid hready ▸ hd.listing.reserve hvalid
      rw [table_eq_noShortName (d := { d with folder }) hd.searchable hf hunread] at hnamed
      exact absurd rfl hnamed
  · obtain ⟨hd', hlisted⟩ := hd.prepared hnew hprepared
    rw [hsave]
    -- However much was written, it is in an entry of the folder.
    have hwritten {spot : Spot} (hopens : d'.host.Opens d'.folder (d'.path name) spot) (part : List UInt8) :
        Sound { d' with folder := d'.folder.put spot (.file part) } := by
      obtain ⟨rfl, hvalid⟩ := hopens.plain (hd'.slash_not_mem_path hname)
      exact hd'.write hvalid (hlisted hopens.free) part
    cases hwrite with
    | refused => exact hd'
    | broken hopens _ => exact hwritten hopens _
    | written hopens _ => exact hwritten hopens _

end Sound

theorem existingPath_eq_ok {p : Text} (h : d.existingPath name = .ok p) :
    p = d.path name ∧ ∃ e, d.host.lookup d.folder (d.path name) = .ok (some e) := by
  obtain ⟨there, hthere, hpath⟩ := bind_eq_ok_iff.mp h
  obtain ⟨found, hlookup, hfound⟩ := bind_eq_ok_iff.mp hthere
  cases hfound
  cases found with
  | none => cases hpath
  | some e => exact ⟨(Except.ok.inj hpath).symm, e, hlookup⟩

theorem existingPath_eq_error {e : Fault} (h : d.existingPath name = .error e) :
    e.isDiskFault = true := by
  rcases bind_eq_error_iff.mp h with hthere | ⟨there, -, hpath⟩
  · rcases bind_eq_error_iff.mp hthere with hlookup | ⟨found, -, hfound⟩
    · exact (Host.lookup_eq_error hlookup).1
    · cases hfound
  · cases there with
    | false =>
      cases hpath
      rfl
    | true => cases hpath

/-- Deleting fails and changes nothing, or the disk is read again without the file. -/
theorem delete_cases (d : Disk) (name : Text) :
    (∃ e : Fault, e.isDiskFault = true ∧ (delete name).run d = (.error e, d)) ∨
      ∃ folder, d.host.remove d.folder (d.path name) = .ok folder ∧
        (delete name).run d = refresh.run { d with folder } := by
  simp only [delete, Run.run_bind, Run.run_get, Run.run_ofExcept]
  cases hpath : d.existingPath name with
  | error e => exact .inl ⟨e, existingPath_eq_error hpath, rfl⟩
  | ok path =>
    obtain ⟨rfl, found, hfound⟩ := existingPath_eq_ok hpath
    cases hremove : d.host.remove d.folder (d.path name) with
    | error e => exact .inl ⟨e, Host.remove_eq_error hfound hremove, by simp [hremove]⟩
    | ok folder => exact .inr ⟨folder, rfl, by simp [hremove]⟩

/-- Renaming fails and changes nothing, or the disk is read again with the entry moved to a short name. -/
theorem rename_cases (d : Disk) (name newName : Text) :
    (∃ e : Fault, e.isDiskFault = true ∧ (rename name newName).run d = (.error e, d)) ∨
      (ShortName.ofName newName d.fullNames = .error .noShortName ∧
        (rename name newName).run d = (.error .noShortName, d)) ∨
      ∃ short folder, ShortName.ofName newName d.fullNames = .ok short ∧
        d.host.rename d.folder (d.path name) short = .ok folder ∧
        (rename name newName).run d = refresh.run { d with folder } := by
  simp only [rename, Run.run_bind, Run.run_get, Run.run_ofExcept]
  cases hpath : d.existingPath name with
  | error e => exact .inl ⟨e, existingPath_eq_error hpath, rfl⟩
  | ok path =>
    obtain ⟨rfl, found, hfound⟩ := existingPath_eq_ok hpath
    cases hshort : ShortName.ofName newName d.fullNames with
    | error e =>
      obtain rfl := ShortName.ofName_eq_error hshort
      exact .inr (.inl ⟨rfl, rfl⟩)
    | ok short =>
      cases hrename : d.host.rename d.folder (d.path name) short with
      | error e => exact .inl ⟨e, Host.rename_eq_error hfound hrename, by simp [hrename]⟩
      | ok folder => exact .inr (.inr ⟨short, folder, rfl, hrename, by simp [hrename]⟩)

namespace Sound

variable (hd : d.Sound)
include hd

/-- What the host does when it moves an entry to a new short name: there is no file in its place, so the files
hold what they held. -/
theorem rename_folder (hname : '/' ∉ name) {newName short : Text} {folder : Folder}
    (hshort : ShortName.ofName newName d.fullNames = .ok short)
    (hrename : d.host.rename d.folder (d.path name) short = .ok folder) :
    folder.IsListing ∧ folder.contents = d.folder.contents ∧
      ((∀ place, d.folder.find? short ≠ some (.folder place)) → d.folder.Moved folder) := by
  have hvalid := Folder.isName_of_isShort (ShortName.isShort_of_ofName hshort)
  have hfile := hd.not_file_of_ofName hshort
  obtain ⟨e, hentry, ⟨hsame, rfl⟩ | ⟨hother, rfl⟩⟩ :=
    Host.rename_plain (hd.slash_not_mem_path hname) hrename
  · -- No file has the new short name, so what moves to the name that it has is a folder.
    refine ⟨hd.listing, rfl, fun hfree => ?_⟩
    rw [hsame, Folder.find?_eq_none hfile hfree] at hentry
    cases hentry
  · have herased := hd.listing.erase (d.path name)
    refine ⟨herased.insert hvalid e, ?_, fun hfree => ?_⟩
    · have hheld : Folder.held ((d.folder.erase (d.path name)).find? short) = 0 := by
        rw [Folder.find?_erase, if_neg (Ne.symm hother)]
        cases hfind : d.folder.find? short with
        | none => rfl
        | some old =>
          cases old with
          | file bytes => exact absurd hfind (hfile bytes)
          | folder place => rfl
      rw [Folder.contents_insert herased, Folder.contents_erase hd.listing (d.path name),
        Folder.contents_erase herased short, hheld, hentry, zero_add]
    · refine ⟨d.path name, short, e, hentry, Folder.find?_eq_none hfile hfree, ?_⟩
      intro k
      rw [Folder.find?_insert, Folder.find?_erase]

theorem delete (hname : '/' ∉ name)
    (hnamed : ((Disk.delete name).run d).1 ≠ .error .noShortName) :
    ((Disk.delete name).run d).2.Sound := by
  rcases delete_cases d name with ⟨e, -, hrun⟩ | ⟨folder, hremove, hrun⟩
  · rw [hrun]
    exact hd
  · obtain ⟨-, rfl⟩ := Host.remove_plain (hd.slash_not_mem_path hname) hremove
    rw [hrun] at hnamed ⊢
    exact sound_of_refresh hd.searchable (hd.listing.erase _) hnamed

theorem rename (hname : '/' ∉ name) {newName : Text}
    (hnamed : ((Disk.rename name newName).run d).1 ≠ .error .noShortName) :
    ((Disk.rename name newName).run d).2.Sound := by
  rcases rename_cases d name newName with ⟨e, -, hrun⟩ | ⟨-, hrun⟩ | ⟨short, folder, hshort, hrename, hrun⟩
  · rw [hrun]
    exact hd
  · rw [hrun]
    exact hd
  · obtain ⟨hlisting, -⟩ := hd.rename_folder hname hshort hrename
    rw [hrun] at hnamed ⊢
    exact sound_of_refresh hd.searchable hlisting hnamed

/-- What renaming can come to on a sound disk: nothing changes, or an entry moves and the files hold what they
held. Only the short names can run out then. -/
theorem rename_outcome (hname : '/' ∉ name) (newName : Text) :
    (∃ e : Fault, (e.isDiskFault = true ∨ e = .noShortName) ∧
        (Disk.rename name newName).run d = (.error e, d)) ∨
      ∃ short folder result names, ShortName.ofName newName d.fullNames = .ok short ∧
        d.host.rename d.folder (d.path name) short = .ok folder ∧
        (result = .ok () ∨ result = .error .noShortName) ∧
        (Disk.rename name newName).run d = (result, { d with folder, names }) := by
  rcases rename_cases d name newName with ⟨e, hfault, hrun⟩ | ⟨-, hrun⟩ |
      ⟨short, folder, hshort, hrename, hrun⟩
  · exact .inl ⟨e, .inl hfault, hrun⟩
  · exact .inl ⟨_, .inr rfl, hrun⟩
  · right
    obtain ⟨hlisting, -⟩ := hd.rename_folder hname hshort hrename
    rcases refresh_cases { d with folder } with ⟨names, hread, -⟩ | ⟨e, hread, htable⟩
    · exact ⟨short, folder, _, names, hshort, hrename, .inl rfl, hrun.trans hread⟩
    · obtain rfl := table_eq_noShortName (d := { d with folder }) hd.searchable hlisting htable
      exact ⟨short, folder, _, d.names, hshort, hrename, .inr rfl, hrun.trans hread⟩

theorem contents_rename (hname : '/' ∉ name) (newName : Text) :
    ((Disk.rename name newName).run d).2.folder.contents = d.folder.contents := by
  rcases hd.rename_outcome hname newName with ⟨e, -, hrun⟩ |
      ⟨short, folder, result, names, hshort, hrename, -, hrun⟩
  · rw [hrun]
  · rw [hrun]
    exact (hd.rename_folder hname hshort hrename).2.1

theorem rename_eq_error (hname : '/' ∉ name) {newName : Text} {e : Fault}
    (h : ((Disk.rename name newName).run d).1 = .error e) :
    e.isDiskFault = true ∧ ((Disk.rename name newName).run d).2 = d ∨ e = .noShortName := by
  rcases hd.rename_outcome hname newName with ⟨e', hfault, hrun⟩ |
      ⟨short, folder, result, names, -, -, hresult, hrun⟩
  · rw [hrun] at h ⊢
    cases h
    exact hfault.imp_left fun hfault => ⟨hfault, rfl⟩
  · rw [hrun] at h
    rcases hresult with rfl | rfl
    · cases h
    · cases h
      exact .inr rfl

theorem moved_of_rename (hname : '/' ∉ name) {newName : Text}
    (hhost : ∀ short place, ShortName.ofName newName d.fullNames = .ok short →
      d.folder.find? short = some (.folder place) →
        ∃ e, d.host.rename d.folder (d.path name) short = .error e)
    (hok : ((Disk.rename name newName).run d).1 = .ok ()) :
    d.folder.Moved ((Disk.rename name newName).run d).2.folder := by
  rcases hd.rename_outcome hname newName with ⟨e, -, hrun⟩ |
      ⟨short, folder, result, names, hshort, hrename, -, hrun⟩
  · rw [hrun] at hok
    cases hok
  · obtain ⟨-, -, hmoved⟩ := hd.rename_folder hname hshort hrename
    rw [hrun]
    apply hmoved
    intro place hfolder
    obtain ⟨e, herror⟩ := hhost short place hshort hfolder
    rw [hrename] at herror
    cases herror

/-- With fewer files than there are tails, a short name is found for the entry, and one for every file when the
disk is read again. -/
theorem rename_named (hname : '/' ∉ name) (newName : Text)
    (hfew : d.folder.fileNames.length < 999999) :
    ((Disk.rename name newName).run d).1 ≠ .error .noShortName := by
  have hcount := (hd.listing.fileNames_perm d.host).length_eq
  rcases rename_cases d name newName with ⟨e, hfault, hrun⟩ | ⟨hnone, -⟩ |
      ⟨short, folder, hshort, hrename, hrun⟩
  · rw [hrun]
    rintro ⟨⟩
    cases hfault
  · have hsubset : d.fullNames ⊆ d.host.fileNames d.folder := fun host hmem =>
      hd.listing.mem_fileNames_iff.mpr (hd.listed host hmem)
    have hlength := (hd.distinct.subperm hsubset).length_le
    obtain ⟨short, hshort⟩ := ShortName.exists_ofName newName (show d.fullNames.length < 999999 by omega)
    rw [hshort] at hnone
    cases hnone
  · obtain ⟨hlisting, hcontents, -⟩ := hd.rename_folder hname hshort hrename
    have hmoved : folder.fileNames.length = d.folder.fileNames.length := by
      rw [← Folder.card_contents, ← Folder.card_contents, hcontents]
    have hcount' := (hlisting.fileNames_perm d.host).length_eq
    obtain ⟨names, hnames⟩ := ShortName.exists_assign [] (d.host.fileNames folder) (by simp; omega)
    have htable : table { d with folder } = .ok names :=
      (table_eq_assign (d := { d with folder }) hd.searchable hlisting).trans hnames
    rw [hrun, run_refresh, htable]
    rintro ⟨⟩

theorem perform {r : Request} (hname : '/' ∉ r.name) (memory : Memory)
    (hnamed : ((r.perform memory).run d).1 ≠ .error .noShortName) :
    ((r.perform memory).run d).2.Sound := by
  cases r with
  | save name a n =>
    rw [Request.run_perform_save] at hnamed ⊢
    cases hthere : d.hasFile name with
    | error e => exact hd
    | ok there =>
      cases there with
      | true => exact hd
      | false =>
        simp only [hthere] at hnamed
        exact hd.save hname hthere _ hnamed
  | delete name => exact hd.delete hname hnamed
  | rename name newName => exact hd.rename hname hnamed

theorem of_perm {host : Host} {folder : Folder} (hhost : host.Searchable)
    (h : folder.entries.Perm d.folder.entries) : Sound { d with host, folder } := by
  obtain ⟨hlisting, hfind⟩ := hd.listing.of_perm h
  constructor
  case searchable => exact hhost
  case listing => exact hlisting
  case listed =>
    intro host hmem
    simp only [hfind]
    exact hd.listed host hmem
  case distinct => exact hd.distinct
  case unlisted =>
    intro host bytes hfile hnot
    rw [hfind] at hfile
    exact hd.unlisted host bytes hfile hnot

end Sound

/-- The disks that a machine can come to from a folder that was just read, by lines that save, delete and rename
files whose names have no slash. Between them anything may happen to the rest of the machine, and the host may
come to list the entries in another order, to refuse other things and to change what it keeps elsewhere. A line
that finds no short name ends the program. -/
inductive Reachable : Disk → Prop
  | read {d : Disk} (searchable : d.host.Searchable) (listing : d.folder.IsListing)
      (named : (refresh.run d).1 ≠ .error .noShortName) : Reachable (refresh.run d).2
  | line {m : Machine} {line : Text} {r : Request} (before : Reachable m.disk)
      (room : 65536 ≤ m.memory.size) (spelled : r.Spelled m line) (plain : '/' ∉ r.name)
      (named : ((Machine.runLine line).run m).1 ≠ .error .noShortName) :
      Reachable ((Machine.runLine line).run m).2.disk
  | meanwhile {d : Disk} {host : Host} {folder : Folder} (before : Reachable d)
      (searchable : host.Searchable) (same : folder.entries.Perm d.folder.entries) :
      Reachable { d with host, folder }

theorem Reachable.sound (h : d.Reachable) : d.Sound := by
  induction h with
  | read hsearchable hlisting hnamed => exact sound_of_refresh hsearchable hlisting hnamed
  | @line m line r _ hroom hspelled hplain hnamed hbefore =>
    obtain ⟨n, hrun, hdisk, -⟩ := Machine.run_request hroom hspelled
    rw [hrun] at hnamed ⊢
    rw [hdisk]
    apply hbefore.perform hplain m.memory
    intro hfault
    apply hnamed
    have hreply : r.reply (.error .noShortName) = .error .noShortName :=
      Request.reply_eq_error_iff.mpr ⟨rfl, rfl⟩
    rw [hfault, hreply]
    rfl
  | meanwhile _ hsearchable hsame hbefore => exact hbefore.of_perm hsearchable hsame

end Disk

namespace Machine

/-- What renaming keeps, if the line ends with `result` and in `m'`. The host is to refuse to move an entry onto
a folder. -/
structure RenameKeeps (m m' : Machine) (result : Except Fault Unit) (name newName : Text) : Prop where
  contents : m'.disk.folder.contents = m.disk.folder.contents
  unchanged : ∀ k, result = .ok () → m'.numeric ['R'] = .ok k → k ≠ 0 →
    m'.disk.folder = m.disk.folder
  moved : result = .ok () → m'.numeric ['R'] = .ok 0 →
    (∀ short place, ShortName.ofName newName m.disk.fullNames = .ok short →
      m.disk.folder.find? short = some (.folder place) →
        ∃ e, m.disk.host.rename m.disk.folder (m.disk.path name) short = .error e) →
    m.disk.folder.Moved m'.disk.folder
  returns : m.disk.folder.fileNames.length < 999999 → result = .ok ()

/-- Renaming never loses a file, on every disk that saving, deleting and renaming can lead to, whatever the order
in which the host lists the files each time. -/
theorem rename_keeps_files (m : Machine) (line name newName : Text) (hsize : 65536 ≤ m.memory.size)
    (hdisk : m.disk.Reachable) (hline : (Request.rename name newName).Spelled m line)
    (hname : '/' ∉ name) :
    RenameKeeps m ((runLine line).run m).2 ((runLine line).run m).1 name newName := by
  have hsound := hdisk.sound
  obtain ⟨m', hrun, hafter, hvalue⟩ := run_request hsize hline
  simp only [Request.perform] at hrun hafter hvalue
  rw [hrun]
  -- When the line returns, `R` holds the reply.
  have hreply {k : Nat}
      (hok : ((Request.rename name newName).reply ((Disk.rename name newName).run m.disk).1).map
        (fun _ => ()) = .ok ()) (hk : m'.numeric ['R'] = .ok k) :
      (Request.rename name newName).reply ((Disk.rename name newName).run m.disk).1 = .ok k := by
    cases hcode : (Request.rename name newName).reply ((Disk.rename name newName).run m.disk).1 with
    | error e =>
      rw [hcode] at hok
      cases hok
    | ok k' =>
      have hk' := hvalue k' hcode
      rw [hk] at hk'
      rw [Except.ok.inj hk']
  constructor
  case contents =>
    rw [hafter]
    exact hsound.contents_rename hname newName
  case unchanged =>
    intro k hok hk hne
    have hcode := hreply hok hk
    rw [hafter]
    cases houtcome : ((Disk.rename name newName).run m.disk).1 with
    | ok u =>
      rw [Request.reply_eq_zero_iff.mpr houtcome] at hcode
      exact absurd (Except.ok.inj hcode).symm hne
    | error e =>
      rcases hsound.rename_eq_error hname houtcome with ⟨-, hsame⟩ | rfl
      · rw [hsame]
      · rw [houtcome] at hcode
        cases hcode
  case moved =>
    intro hok hzero hhost
    rw [hafter]
    exact hsound.moved_of_rename hname hhost (Request.reply_eq_zero_iff.mp (hreply hok hzero))
  case returns =>
    intro hfew
    have hnamed := hsound.rename_named hname newName hfew
    cases houtcome : ((Disk.rename name newName).run m.disk).1 with
    | ok u => rfl
    | error e =>
      rcases hsound.rename_eq_error hname houtcome with ⟨hfault, -⟩ | rfl
      · cases hcode : (Request.rename name newName).reply (.error e) with
        | ok k => rfl
        | error e' =>
          obtain ⟨heq, hnone⟩ := Request.reply_eq_error_iff.mp hcode
          cases heq
          rw [hfault] at hnone
          cases hnone
      · exact absurd houtcome hnamed

def unread : Disk where
  folder := { entries := [("SUB".toList, .folder []), ("A.TXT".toList, .file [1, 2])] }

def freshlyRead : Machine where
  disk := (Disk.refresh.run unread).2

/-- The machine after it saved a file that the table does not list. -/
def withUnlisted : Machine := ((runLine "SAVE \"hello.txt\" 100 4".toList).run freshlyRead).2

theorem reachable_withUnlisted : withUnlisted.disk.Reachable := by
  have hparse : Token.parse "SAVE \"hello.txt\" 100 4".toList =
      .ok [.word "SAVE".toList, .quote "\"hello.txt\"".toList, .number 100, .number 4] := by
    decide +kernel
  have hline : (Request.save "hello.txt".toList 100 4).Spelled freshlyRead
      "SAVE \"hello.txt\" 100 4".toList :=
    .save hparse (by decide +kernel) (by decide +kernel) rfl rfl
  have hlisting : unread.folder.IsListing := ⟨by decide +kernel, by decide +kernel⟩
  have hread : freshlyRead.disk.Reachable :=
    .read Host.willing_alone.searchable hlisting (by decide +kernel)
  unfold withUnlisted
  exact .line hread (by decide +kernel) hline (by decide +kernel) (by decide +kernel)

/-- The new name is the name of the unlisted file, and its short name is taken by the empty file that was made
for it. -/
theorem rename_keeps_files_unlisted :
    65536 ≤ withUnlisted.memory.size ∧ withUnlisted.disk.Reachable ∧
      (Request.rename "A.TXT".toList "hello.txt".toList).Spelled withUnlisted
        "RENAME \"A.TXT\" \"hello.txt\"".toList ∧ '/' ∉ "A.TXT".toList ∧
      ((runLine "RENAME \"A.TXT\" \"hello.txt\"".toList).run withUnlisted).2.numeric ['R'] = .ok 0 ∧
      RenameKeeps withUnlisted
        ((runLine "RENAME \"A.TXT\" \"hello.txt\"".toList).run withUnlisted).2
        ((runLine "RENAME \"A.TXT\" \"hello.txt\"".toList).run withUnlisted).1
        "A.TXT".toList "hello.txt".toList := by
  have hsize : 65536 ≤ withUnlisted.memory.size := by decide +kernel
  have hparse : Token.parse "RENAME \"A.TXT\" \"hello.txt\"".toList =
      .ok [.word "RENAME".toList, .quote "\"A.TXT\"".toList, .quote "\"hello.txt\"".toList] := by
    decide +kernel
  have hline : (Request.rename "A.TXT".toList "hello.txt".toList).Spelled withUnlisted
      "RENAME \"A.TXT\" \"hello.txt\"".toList :=
    .rename hparse (by decide +kernel) (by decide +kernel) (by decide +kernel)
  have hname : '/' ∉ "A.TXT".toList := by decide
  have hzero : ((runLine "RENAME \"A.TXT\" \"hello.txt\"".toList).run withUnlisted).2.numeric ['R'] =
      .ok 0 := by decide +kernel
  exact ⟨hsize, reachable_withUnlisted, hline, hname, hzero,
    rename_keeps_files withUnlisted _ _ _ hsize reachable_withUnlisted hline hname⟩

end Machine
end BasicMachine
