import BasicMachine.Proofs.ShortNames

/-! The table of short names. When the disk is read, every file of the folder gets a short name that no file
before it has, whatever the order of the folder is. So the table is a bijection: a listed name leads to one
file, and a file has one listed name. -/
namespace BasicMachine

section Keyed

variable {α β : Type}

theorem lookup_eq_some_iff_mem [BEq α] [LawfulBEq α] {l : List (α × β)} (h : (l.map (·.1)).Nodup)
    {k : α} {b : β} : l.lookup k = some b ↔ (k, b) ∈ l := by
  constructor
  · intro hlookup
    obtain ⟨before, after, rfl, -⟩ := List.lookup_eq_some_iff.mp hlookup
    simp
  · intro hmem
    cases hlookup : l.lookup k with
    | none => simpa using List.lookup_eq_none_iff.mp hlookup _ hmem
    | some b' =>
      obtain ⟨before, after, rfl, -⟩ := List.lookup_eq_some_iff.mp hlookup
      have hsame : (k, b) = (k, b') := List.inj_on_of_nodup_map h hmem (by simp) rfl
      rw [(Prod.mk.inj hsame).2]

end Keyed

namespace ShortName

section Assign

variable {taken names : List Text} {pairs : List (Text × Text)}

theorem assign_eq_error {e : Fault} (h : assign taken names = .error e) : e = .noShortName := by
  induction names generalizing taken with
  | nil => cases h
  | cons name names ih =>
    rw [assign] at h
    rcases bind_eq_error_iff.mp h with hshort | ⟨short, -, hbehind⟩
    · exact ofName_eq_error hshort
    rcases bind_eq_error_iff.mp hbehind with hothers | ⟨others, -, hpairs⟩
    · exact ih hothers
    · cases hpairs

theorem assign_hosts (h : assign taken names = .ok pairs) : pairs.map (·.1) = names := by
  induction names generalizing taken pairs with
  | nil =>
    rw [← Except.ok.inj h]
    rfl
  | cons name names ih =>
    obtain ⟨short, others, -, hothers, rfl⟩ := assign_cons_eq_ok h
    rw [List.map_cons, ih hothers]

theorem assign_nodup (h : assign taken names = .ok pairs) :
    (pairs.map (·.2)).Nodup ∧ ∀ short ∈ pairs.map (·.2), short ∉ taken := by
  induction names generalizing taken pairs with
  | nil =>
    rw [← Except.ok.inj h]
    simp
  | cons name names ih =>
    obtain ⟨short, others, hshort, hothers, rfl⟩ := assign_cons_eq_ok h
    obtain ⟨hnodup, hnew⟩ := ih hothers
    rw [List.map_cons]
    constructor
    · apply List.nodup_cons.mpr ⟨?_, hnodup⟩
      intro hmem
      exact hnew short hmem (by simp)
    · intro other hother
      rcases List.mem_cons.mp hother with rfl | hlater
      · exact not_mem_of_ofName hshort
      · intro htaken
        exact hnew other hlater (List.mem_append_left _ htaken)

theorem exists_assign (taken names : List Text) (h : taken.length + names.length ≤ 999999) :
    ∃ pairs, assign taken names = .ok pairs := by
  induction names generalizing taken with
  | nil => exact ⟨[], rfl⟩
  | cons name names ih =>
    rw [List.length_cons] at h
    obtain ⟨short, hshort⟩ := exists_ofName name (show taken.length < 999999 by omega)
    obtain ⟨others, hothers⟩ := ih (taken ++ [short]) (by simp; omega)
    refine ⟨(name, short) :: others, ?_⟩
    simp [assign, hshort, hothers, bind, Except.bind, pure, Except.pure]

end Assign

end ShortName

namespace Folder

/-- The entries have names that a host allows, and no two of them the same. They may stand in any order. -/
structure IsListing (f : Folder) : Prop where
  named : ∀ e ∈ f.entries, IsName e.1
  distinct : (f.entries.map (·.1)).Nodup

def hasFile (f : Folder) (name : Text) : Bool := ((f.find? name).map Entry.isFile).getD false

theorem hasFile_iff {f : Folder} {name : Text} :
    f.hasFile name = true ↔ ∃ bytes, f.find? name = some (.file bytes) := by
  rw [hasFile]
  cases f.find? name with
  | none => simp
  | some e => cases e <;> simp [Entry.isFile]

end Folder

/-- The files of a folder, in the order in which a host lists them. -/
def Host.fileNames (h : Host) (f : Folder) : List Text := (h.listed f).filter f.hasFile

namespace Folder.IsListing

variable {f : Folder} (hf : f.IsListing)
include hf

theorem find?_eq_some_iff {name : Text} {e : Entry} : f.find? name = some e ↔ (name, e) ∈ f.entries :=
  lookup_eq_some_iff_mem hf.distinct

theorem isName {name : Text} {e : Entry} (h : f.find? name = some e) : IsName name :=
  hf.named _ (hf.find?_eq_some_iff.mp h)

theorem isName_of_listed {h : Host} {name : Text} (hname : name ∈ h.listed f) : IsName name := by
  obtain ⟨e, he, rfl⟩ := List.mem_map.mp ((h.listed_perm f).subset hname)
  exact hf.named e he

theorem mem_fileNames_iff {h : Host} {name : Text} :
    name ∈ h.fileNames f ↔ ∃ bytes, f.find? name = some (.file bytes) := by
  rw [Host.fileNames, List.mem_filter, hasFile_iff, and_iff_right_iff_imp]
  rintro ⟨bytes, hfile⟩
  exact (h.listed_perm f).mem_iff.mpr (List.mem_map_of_mem (hf.find?_eq_some_iff.mp hfile))

theorem nodup_fileNames (h : Host) : (h.fileNames f).Nodup :=
  ((h.listed_perm f).nodup_iff.mpr hf.distinct).filter _

theorem fileNames_perm (h : Host) : (h.fileNames f).Perm f.fileNames := by
  have hfiles : f.fileNames = (f.entries.map (·.1)).filter f.hasFile := by
    rw [Folder.fileNames, List.filter_map]
    congr 1
    apply List.filter_congr
    intro e he
    simp [hasFile, hf.find?_eq_some_iff.mpr he]
  rw [hfiles]
  exact (h.listed_perm f).filter _

end Folder.IsListing

namespace Disk

section Tabulate

variable {h : Host} {f : Folder} {taken names : List Text}

/-- The files get their short names in the order in which the host lists them. -/
theorem tabulate_eq_assign (hh : h.Searchable) (hnames : ∀ name ∈ names, Folder.IsName name) :
    tabulate h f taken names = ShortName.assign taken (names.filter f.hasFile) := by
  induction names generalizing taken with
  | nil => rfl
  | cons name names ih =>
    obtain ⟨hname, hrest⟩ := List.forall_mem_cons.mp hnames
    rw [tabulate, hh.isFile f hname, ← Folder.hasFile]
    cases hfile : f.hasFile name with
    | false =>
      rw [List.filter_cons_of_neg (by simp [hfile])]
      exact ih hrest
    | true =>
      rw [List.filter_cons_of_pos hfile, ShortName.assign]
      simp only [bind, Except.bind, if_true, ih hrest]

theorem tabulate_eq_error {e : Fault} (htable : tabulate h f taken names = .error e) :
    e.isDiskFault = true ∨ e = .noShortName := by
  induction names generalizing taken with
  | nil => cases htable
  | cons name names ih =>
    rw [tabulate] at htable
    rcases bind_eq_error_iff.mp htable with hlook | ⟨there, -, hrest⟩
    · rcases bind_eq_error_iff.mp hlook with hlook | ⟨found, -, hfound⟩
      · exact .inl (Host.lookup_eq_error hlook).1
      · cases hfound
    cases there with
    | false => exact ih hrest
    | true =>
      rcases bind_eq_error_iff.mp hrest with hshort | ⟨short, -, hbehind⟩
      · exact .inr (ShortName.ofName_eq_error hshort)
      rcases bind_eq_error_iff.mp hbehind with hothers | ⟨others, -, hpairs⟩
      · exact ih hothers
      · cases hpairs

end Tabulate

variable {d : Disk}

theorem table_eq_assign (hd : d.host.Searchable) (hf : d.folder.IsListing) :
    d.table = ShortName.assign [] (d.host.fileNames d.folder) := by
  have hlist : d.host.list d.folder = .ok (d.host.listed d.folder) := by
    rw [Host.list, hd.lists]
  rw [table, hlist]
  exact tabulate_eq_assign hd fun _ => hf.isName_of_listed

theorem run_refresh (d : Disk) :
    refresh.run d = match d.table with
      | .ok names => (.ok (), { d with names })
      | .error e => (.error e, d) := by
  simp only [refresh, Run.run_bind, Run.run_get, Run.run_ofExcept]
  cases d.table with
  | ok names => rfl
  | error e => rfl

theorem table_eq_error {e : Fault} (h : d.table = .error e) :
    e.isDiskFault = true ∨ e = .noShortName := by
  rcases bind_eq_error_iff.mp h with hlist | ⟨entries, -, htable⟩
  · rw [Host.list] at hlist
    split at hlist
    · next r _ => exact .inl (Except.error.inj hlist ▸ r.isDiskFault)
    · cases hlist
  · exact tabulate_eq_error htable

/-- Reading the disk gives a table that is up to date, or it fails and changes nothing. -/
theorem refresh_cases (d : Disk) :
    (∃ names, refresh.run d = (.ok (), { d with names }) ∧ UpToDate { d with names }) ∨
      ∃ e, refresh.run d = (.error e, d) ∧ d.table = .error e := by
  rw [run_refresh]
  cases htable : d.table with
  | ok names => exact .inl ⟨names, rfl, htable⟩
  | error e => exact .inr ⟨e, rfl, rfl⟩

theorem hostName?_eq_some_iff (h : d.shortNames.Nodup) {short host : Text} :
    d.hostName? short = some host ↔ (host, short) ∈ d.names := by
  rw [hostName?, Option.map_eq_some_iff]
  constructor
  · rintro ⟨⟨_, found⟩, hfind, rfl⟩
    have hname : found = short := by simpa using List.find?_some hfind
    rw [← hname]
    exact List.mem_of_find?_eq_some hfind
  · intro hmem
    cases hfind : d.names.find? fun e => e.2 == short with
    | none => simpa using List.find?_eq_none.mp hfind _ hmem
    | some e =>
      have hname : e.2 = short := by simpa using List.find?_some hfind
      have hsame : e = (host, short) :=
        List.inj_on_of_nodup_map h (List.mem_of_find?_eq_some hfind) hmem hname
      exact ⟨e, rfl, by rw [hsame]⟩

/-- The table gives every file of the folder a short name of its own, and a listed name leads to the file
that has it. -/
structure Bijective (d : Disk) : Prop where
  covers : ∀ host, (∃ short, d.names.lookup host = some short) ↔
    ∃ bytes, d.folder.find? host = some (.file bytes)
  different : ∀ host host' short, d.names.lookup host = some short →
    d.names.lookup host' = some short → host = host'
  inverse : ∀ host short, d.hostName? short = some host ↔ d.names.lookup host = some short
  listed : d.shortNames.Nodup
  resolves : ∀ short ∈ d.shortNames, ∃ host bytes, d.existingPath short = .ok host ∧
    d.folder.find? host = some (.file bytes)
  reached : ∀ host bytes, d.folder.find? host = some (.file bytes) →
    ∃! short, short ∈ d.shortNames ∧ d.existingPath short = .ok host

section Searched

variable (hd : d.host.Searchable)
include hd

theorem existingPath_of_isName {name : Text} (hname : Folder.IsName (d.path name)) {e : Entry}
    (he : d.folder.find? (d.path name) = some e) : d.existingPath name = .ok (d.path name) := by
  rw [existingPath, hd.exists? d.folder hname, he]
  rfl

theorem existingPath_of_hostName? (hf : d.folder.IsListing) {short host : Text} {bytes : List UInt8}
    (hhost : d.hostName? short = some host) (hfile : d.folder.find? host = some (.file bytes)) :
    d.existingPath short = .ok host := by
  have hpath : d.path short = host := by rw [path, hhost, Option.getD_some]
  rw [← hpath] at hfile ⊢
  exact existingPath_of_isName hd (hf.isName hfile) hfile

theorem fullNames_of_upToDate (hf : d.folder.IsListing) (h : d.UpToDate) :
    d.fullNames = d.host.fileNames d.folder := by
  rw [UpToDate, table_eq_assign hd hf] at h
  exact ShortName.assign_hosts h

theorem bijective_of_upToDate (hf : d.folder.IsListing) (h : d.UpToDate) : d.Bijective := by
  have hhosts : d.names.map (·.1) = d.host.fileNames d.folder := fullNames_of_upToDate hd hf h
  have hlisted : d.shortNames.Nodup := (ShortName.assign_nodup h.assign).1
  have hlookup {host short : Text} : d.names.lookup host = some short ↔ (host, short) ∈ d.names :=
    lookup_eq_some_iff_mem (hhosts ▸ hf.nodup_fileNames d.host)
  have hfile {host short : Text} (hmem : (host, short) ∈ d.names) :
      ∃ bytes, d.folder.find? host = some (.file bytes) := by
    rw [← hf.mem_fileNames_iff, ← hhosts]
    exact List.mem_map_of_mem hmem
  have hpath {host short : Text} (hmem : (host, short) ∈ d.names) :
      d.existingPath short = .ok host := by
    obtain ⟨bytes, hbytes⟩ := hfile hmem
    exact existingPath_of_hostName? hd hf ((hostName?_eq_some_iff hlisted).mpr hmem) hbytes
  have hshort {host : Text} {bytes : List UInt8} (hbytes : d.folder.find? host = some (.file bytes)) :
      ∃ short, (host, short) ∈ d.names := by
    have hmem := (hf.mem_fileNames_iff (h := d.host)).mpr ⟨bytes, hbytes⟩
    rw [← hhosts] at hmem
    obtain ⟨⟨_, short⟩, hentry, rfl⟩ := List.mem_map.mp hmem
    exact ⟨short, hentry⟩
  constructor
  case covers =>
    intro host
    constructor
    · rintro ⟨short, hfound⟩
      exact hfile (hlookup.mp hfound)
    · rintro ⟨bytes, hbytes⟩
      obtain ⟨short, hmem⟩ := hshort hbytes
      exact ⟨short, hlookup.mpr hmem⟩
  case different =>
    intro host host' short hfirst hsecond
    have hsame : (host, short) = (host', short) :=
      List.inj_on_of_nodup_map hlisted (hlookup.mp hfirst) (hlookup.mp hsecond) rfl
    exact (Prod.mk.inj hsame).1
  case inverse =>
    intro host short
    rw [hostName?_eq_some_iff hlisted, hlookup]
  case listed => exact hlisted
  case resolves =>
    intro short hmem
    obtain ⟨⟨host, _⟩, hentry, rfl⟩ := List.mem_map.mp hmem
    obtain ⟨bytes, hbytes⟩ := hfile hentry
    exact ⟨host, bytes, hpath hentry, hbytes⟩
  case reached =>
    intro host bytes hbytes
    obtain ⟨short, hmem⟩ := hshort hbytes
    refine ⟨short, ⟨List.mem_map_of_mem hmem, hpath hmem⟩, ?_⟩
    rintro other ⟨hother, hsame⟩
    obtain ⟨⟨host', _⟩, hentry, rfl⟩ := List.mem_map.mp hother
    rw [hpath hentry] at hsame
    cases hsame
    -- Both names stand in the table for one file, and the table has one entry for it.
    exact Option.some.inj ((hlookup.mpr hentry).symm.trans (hlookup.mpr hmem))

end Searched

/-- Reading a folder of fewer than 999999 files, whatever their names are and in whatever order the host lists
them, gives a table that is a bijection between the listed names and the files. -/
theorem refresh_bijective (d : Disk) (hd : d.host.Searchable) (hf : d.folder.IsListing)
    (hfew : d.folder.fileNames.length < 999999) :
    ∃ d', refresh.run d = (.ok (), d') ∧ d'.folder = d.folder ∧ d'.Bijective := by
  have hcount := (hf.fileNames_perm d.host).length_eq
  obtain ⟨names, hnames⟩ := ShortName.exists_assign [] (d.host.fileNames d.folder) (by simp; omega)
  rw [← table_eq_assign hd hf] at hnames
  refine ⟨{ d with names }, ?_, rfl, bijective_of_upToDate (d := { d with names }) hd hf hnames⟩
  rw [run_refresh, hnames]

/-- Five files that want the same short name, out of order and with a folder between them. -/
def rivals : Folder := { entries := [
  ("notes~1.txt".toList, .file [1]), ("no tes.txt".toList, .file [2]), ("NOTES~2.TXT".toList, .folder []),
  ("NOTES.TXT".toList, .file []), (".notes.txtual".toList, .file [3]), ("Notes~1.txt".toList, .file [4])] }

theorem refresh_bijective_rivals :
    Host.alone.Searchable ∧ rivals.IsListing ∧ rivals.fileNames.length < 999999 ∧
      ∃ d, refresh.run { folder := rivals } = (.ok (), d) ∧ d.folder = rivals ∧ d.Bijective := by
  have hlisting : rivals.IsListing := ⟨by decide +kernel, by decide +kernel⟩
  have hfew : rivals.fileNames.length < 999999 := by decide
  exact ⟨Host.willing_alone.searchable, hlisting, hfew,
    refresh_bijective { folder := rivals } Host.willing_alone.searchable hlisting hfew⟩

end Disk
end BasicMachine
