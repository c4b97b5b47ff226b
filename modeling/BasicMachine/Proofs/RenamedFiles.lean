import BasicMachine.Proofs.CanonicalNames
import BasicMachine.Proofs.NameStability

/-! A renamed file and its new name. When the file goes from its place, its short name becomes free, and the
files behind it can move up to names that others have left. But they move only among the names that the table
had before, so a new name that was not in it is still free when the renamed file comes to be listed, wherever
that is. -/
namespace BasicMachine

namespace ShortName

variable {taken taken' : List Text} {x : Text}

/-- One name fewer is taken: a file keeps its short name or gets the name that became free. -/
theorem ofName_of_fewer {name short short' : Text} (h : ofName name taken = .ok short)
    (h' : ofName name taken' = .ok short') (htaken : ∀ t, t ∈ taken ↔ t ∈ taken' ∨ t = x) :
    short' = short ∨ short' = x := by
  obtain ⟨hcandidate, hfree, htried⟩ := ofName_eq_ok_iff.mp h'
  by_cases hmem : short' ∈ taken
  · exact .inr (((htaken short').mp hmem).resolve_left hfree)
  · have hsame : ofName name taken = .ok short' :=
      ofName_eq_ok_iff.mpr ⟨hcandidate, hmem, fun t ht => (htaken t).mpr (.inl (htried t ht))⟩
    rw [h] at hsame
    exact .inl (Except.ok.inj hsame).symm

/-- The files move among the names that they had and the one that became free. -/
theorem mem_of_assign_fewer {names : List Text} {pairs pairs' : List (Text × Text)}
    (h : assign taken names = .ok pairs) (h' : assign taken' names = .ok pairs')
    (htaken : ∀ t, t ∈ taken ↔ t ∈ taken' ∨ t = x) :
    ∀ t ∈ pairs'.map (·.2), t = x ∨ t ∈ pairs.map (·.2) := by
  induction names generalizing taken taken' pairs pairs' x with
  | nil =>
    rw [← Except.ok.inj h']
    simp
  | cons name names ih =>
    obtain ⟨short, others, hshort, hothers, rfl⟩ := assign_cons_eq_ok h
    obtain ⟨short', others', hshort', hothers', rfl⟩ := assign_cons_eq_ok h'
    rw [List.map_cons, List.map_cons, List.forall_mem_cons]
    rcases ofName_of_fewer hshort hshort' htaken with rfl | rfl
    · have hnext : ∀ t, t ∈ taken ++ [short'] ↔ t ∈ taken' ++ [short'] ∨ t = x := by
        intro t
        simp only [List.mem_append, htaken]
        tauto
      refine ⟨.inr List.mem_cons_self, fun t ht => ?_⟩
      exact (ih hothers hothers' hnext t ht).imp_right (List.mem_cons_of_mem _)
    · -- The file took the free name, and now its own is free.
      have hnext : ∀ t, t ∈ taken ++ [short] ↔ t ∈ taken' ++ [short'] ∨ t = short := by
        intro t
        simp only [List.mem_append, List.mem_singleton, htaken]
      refine ⟨.inl rfl, fun t ht => ?_⟩
      exact .inr (List.mem_cons.mpr (ih hothers hothers' hnext t ht))

/-- Without one of the files, the others have no names but those that were there. -/
theorem mem_of_assign_middle {before after : List Text} {host : Text} {pairs pairs' : List (Text × Text)}
    (h : assign taken (before ++ host :: after) = .ok pairs)
    (h' : assign taken (before ++ after) = .ok pairs') : pairs'.map (·.2) ⊆ pairs.map (·.2) := by
  obtain ⟨first, rest, hfirst, hrest, rfl⟩ := assign_append_eq_ok_iff.mp h
  obtain ⟨first', last', hfirst', hlast', rfl⟩ := assign_append_eq_ok_iff.mp h'
  rw [hfirst] at hfirst'
  cases hfirst'
  obtain ⟨short, last, -, hlast, rfl⟩ := assign_cons_eq_ok hrest
  intro t ht
  rw [List.map_append, List.mem_append] at ht ⊢
  apply ht.imp_right
  intro hbehind
  have hfewer := mem_of_assign_fewer hlast hlast' (x := short) fun t => by
    simp only [List.mem_append, List.mem_singleton]
  exact List.mem_cons.mpr (hfewer t hbehind)

end ShortName

namespace Disk

variable {d : Disk} {a b host : Text}

section Renamed

variable (hd : d.host.Searchable) (hf : d.folder.IsListing) (hread : d.UpToDate) (hmem : (host, a) ∈ d.names)
  (hb : ShortName.IsShort b)
include hd hf hread hmem hb

/-- Naming the files after one of them moved to a new name, which has the shape of a short name: wherever the
file is listed now, it gets its own name. -/
theorem exists_assign_renamed (hunlisted : b ∉ d.shortNames) {names : List Text} (hnodup : names.Nodup)
    (hthere : b ∈ names)
    (horder : names.filter (· != b) = (d.host.fileNames d.folder).filter (· != host)) :
    ∃ table, ShortName.assign [] names = .ok table ∧ (b, b) ∈ table := by
  obtain ⟨first, last, last', hnames, htable, -⟩ := exists_assign_without hd hf hread hmem
  obtain ⟨before, after, rfl⟩ := List.append_of_mem hthere
  rw [filter_ne_middle hnodup] at horder
  have hfree : b ∉ (first ++ last').map (·.2) := by
    have hfiles : d.host.fileNames d.folder = first.map (·.1) ++ host :: last.map (·.1) := by
      rw [← fullNames_of_upToDate hd hf hread, fullNames, hnames, List.map_append, List.map_cons]
    have hread' := hread
    have hdistinct := hf.nodup_fileNames d.host
    rw [hfiles] at htable hdistinct
    rw [UpToDate, table_eq_assign hd hf, hfiles] at hread'
    rw [filter_ne_middle hdistinct] at htable
    exact fun hlisted => hunlisted (ShortName.mem_of_assign_middle hread' htable hlisted)
  rw [← horder] at htable
  obtain ⟨first', last'', htable', -⟩ :=
    ShortName.exists_assign_middle htable hb List.not_mem_nil hfree
  exact ⟨_, htable', by simp⟩

/-- Renaming moves the file of the listed name, and reads the disk again. -/
theorem run_rename_listed (hnew : d.folder.find? b = none) {bytes : List UInt8}
    (hfile : d.folder.find? host = some (.file bytes))
    (hgranted : d.host.refuses d.folder (.move b) host = none) :
    (rename a b).run d =
      refresh.run { d with folder := (d.folder.erase host).insert b (.file bytes) } := by
  have hfull : b ∉ d.fullNames := by
    rw [fullNames_of_upToDate hd hf hread, hf.mem_fileNames_iff, hnew]
    simp
  simp [rename, Run.run_bind, (file_of_mem hd hf hread hmem).2, ShortName.ofName_of_isShort hb hfull,
    Host.rename_name (hf.isName hfile) hgranted hfile hnew]

end Renamed

/-- A listed file is renamed to a new name with the shape of a short name, if the host allows it. Then this name
leads to a file with the bytes of the old one, and every other entry keeps its name and what it holds. That does
not hang on the place where a host lists the renamed file, as long as the other files stay in their order. -/
theorem rename_leads (d : Disk) (a b : Text) (hd : d.host.Searchable) (horder : d.host.KeepsOrder)
    (hf : d.folder.IsListing) (hread : d.UpToDate) (hlisted : a ∈ d.shortNames)
    (hb : ShortName.ofName b [] = .ok b) (hnew : d.folder.find? b = none) (hunlisted : b ∉ d.shortNames)
    (hgranted : ∀ host, d.existingPath a = .ok host → d.host.refuses d.folder (.move b) host = none) :
    ∃ d' host bytes, (rename a b).run d = (.ok (), d') ∧
      d.existingPath a = .ok host ∧ d.folder.find? host = some (.file bytes) ∧
      d'.existingPath b = .ok b ∧
      (∀ k, d'.folder.find? k =
        if k = b then some (.file bytes) else if k = host then none else d.folder.find? k) ∧
      ∀ h names, h.Searchable →
        (h.fileNames d'.folder).filter (· != b) = (d.host.fileNames d.folder).filter (· != host) →
        ∃ d'', refresh.run ⟨d'.folder, h, names⟩ = (.ok (), d'') ∧ d''.folder = d'.folder ∧
          d''.existingPath b = .ok b := by
  obtain ⟨⟨host, a⟩, hmem, rfl⟩ := List.mem_map.mp hlisted
  obtain ⟨⟨bytes, hfile⟩, hpath⟩ := file_of_mem hd hf hread hmem
  have hshort := ShortName.isShort_iff_ofName.mpr hb
  have hnew' : (d.folder.erase host).find? b = none := by
    rw [Folder.find?_erase, hnew, ite_self]
  -- Wherever the file is listed, reading the folder leads the name to it.
  let f := (d.folder.erase host).insert b (.file bytes)
  have hf' : f.IsListing := (hf.erase host).insert (Folder.isName_of_isShort hshort) (.file bytes)
  have hleads (h : Host) (names : List (Text × Text)) (hh : h.Searchable)
      (hsame : (h.fileNames f).filter (· != b) = (d.host.fileNames d.folder).filter (· != host)) :
      ∃ d'', refresh.run ⟨f, h, names⟩ = (.ok (), d'') ∧ d''.folder = f ∧ d''.existingPath b = .ok b := by
    have hthere : b ∈ h.fileNames f :=
      hf'.mem_fileNames_iff.mpr ⟨bytes, by rw [Folder.find?_insert, if_pos rfl]⟩
    obtain ⟨table, htable, hself⟩ :=
      exists_assign_renamed hd hf hread hmem hshort hunlisted (hf'.nodup_fileNames h) hthere hsame
    let d'' : Disk := ⟨f, h, table⟩
    have hread'' : d''.UpToDate := (table_eq_assign (d := d'') hh hf').trans htable
    refine ⟨d'', ?_, rfl, (file_of_mem (d := d'') hh hf' hread'' hself).2⟩
    have htable' : Disk.table ⟨f, h, names⟩ = .ok table := hread''
    rw [run_refresh, htable']
  have hsame : (d.host.fileNames f).filter (· != b) = (d.host.fileNames d.folder).filter (· != host) := by
    rw [← horder f b hf', Folder.erase_insert hnew', horder d.folder host hf]
  obtain ⟨d', hrun, hfolder, hb'⟩ := hleads d.host d.names hd hsame
  refine ⟨d', host, bytes, ?_, hpath, hfile, hb', ?_, ?_⟩
  · rw [run_rename_listed hd hf hread hmem hshort hnew hfile (hgranted host hpath)]
    exact hrun
  · intro k
    rw [hfolder, Folder.find?_insert, Folder.find?_erase]
  · rwa [hfolder]

/-- The second of the five rivals is renamed to the next tail that none of them has, and the files behind it
move up. -/
theorem rename_leads_rival :
    readRivals.host.Searchable ∧ readRivals.host.KeepsOrder ∧ readRivals.folder.IsListing ∧
      readRivals.UpToDate ∧ "NOTES.TXT".toList ∈ readRivals.shortNames ∧
      ShortName.ofName "NOTES~4.TXT".toList [] = .ok "NOTES~4.TXT".toList ∧
      readRivals.folder.find? "NOTES~4.TXT".toList = none ∧
      "NOTES~4.TXT".toList ∉ readRivals.shortNames ∧
      ∃ d', (rename "NOTES.TXT".toList "NOTES~4.TXT".toList).run readRivals = (.ok (), d') ∧
        d'.existingPath "NOTES~4.TXT".toList = .ok "NOTES~4.TXT".toList ∧
        d'.folder.find? "NOTES~4.TXT".toList = some (.file [2]) := by
  have hlisted : "NOTES.TXT".toList ∈ readRivals.shortNames := by decide +kernel
  have hkept : ShortName.ofName "NOTES~4.TXT".toList [] = .ok "NOTES~4.TXT".toList := by decide +kernel
  have hnew : readRivals.folder.find? "NOTES~4.TXT".toList = none := by decide +kernel
  have hunlisted : "NOTES~4.TXT".toList ∉ readRivals.shortNames := by decide +kernel
  have hhost : readRivals.existingPath "NOTES.TXT".toList = .ok "no tes.txt".toList := by decide +kernel
  have hbytes : readRivals.folder.find? "no tes.txt".toList = some (.file [2]) := by decide +kernel
  obtain ⟨d', host, bytes, hrun, hpath, hfile, hleads, hentries, -⟩ :=
    rename_leads readRivals _ _ Host.willing_alone.searchable Host.keepsOrder_alone isListing_readRivals
      upToDate_readRivals hlisted hkept hnew hunlisted fun _ _ => rfl
  refine ⟨Host.willing_alone.searchable, Host.keepsOrder_alone, isListing_readRivals, upToDate_readRivals,
    hlisted, hkept, hnew, hunlisted, d', hrun, hleads, ?_⟩
  rw [hhost] at hpath
  cases hpath
  rw [hentries, if_pos rfl, ← hfile, hbytes]

end Disk
end BasicMachine
