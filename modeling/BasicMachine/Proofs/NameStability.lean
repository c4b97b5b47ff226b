import BasicMachine.Proofs.RenameSafety

/-! How the short names change when a file comes or goes. The names for a file are tried in a fixed order, and
the file gets the first one that is free. So a name that is taken in addition changes nothing for the files
that have other names, and a name that becomes free goes to the next file that had tried it. -/
namespace BasicMachine

section Search

variable {α : Type} [BEq α] [LawfulBEq α]

/-- A search finds the first item that fits: none of those in front of it does. -/
theorem find?_eq_some_iff_takeWhile {p : α → Bool} {l : List α} {a : α} :
    l.find? p = some a ↔ a ∈ l ∧ p a = true ∧ ∀ b ∈ l.takeWhile (· != a), p b = false := by
  induction l with
  | nil => simp
  | cons b l ih =>
    rw [List.find?_cons, List.takeWhile_cons]
    by_cases hb : b = a
    · subst hb
      cases hp : p b with
      | true => simp
      | false =>
        simp only [bne_self_eq_false, Bool.false_eq_true, if_false, false_and, and_false, iff_false]
        intro hfind
        rw [List.find?_some hfind] at hp
        cases hp
    · have hne : (b != a) = true := by simpa using hb
      rw [if_pos hne, List.mem_cons, List.forall_mem_cons]
      cases hp : p b with
      | true => simp [hb]
      | false => simp [ih, Ne.symm hb]

/-- What stands in front of an item stands in front of all items behind it. -/
theorem takeWhile_subset_of_mem {l : List α} {a b : α} (h : b ∈ l.takeWhile (· != a)) :
    l.takeWhile (· != b) ⊆ l.takeWhile (· != a) := by
  induction l with
  | nil => simp
  | cons c l ih =>
    by_cases hca : c = a
    · simp [hca] at h
    · have hne : (c != a) = true := by simpa using hca
      have hstep : (c :: l).takeWhile (· != a) = c :: l.takeWhile (· != a) := by
        rw [List.takeWhile_cons, if_pos hne]
      rw [hstep] at h ⊢
      rw [List.takeWhile_cons]
      split
      · next hcb =>
        have hmem : b ∈ l.takeWhile (· != a) := by
          rcases List.mem_cons.mp h with heq | hmem
          · simp [heq] at hcb
          · exact hmem
        exact List.cons_subset_cons c (ih hmem)
      · exact List.nil_subset _

end Search

namespace ShortName

/-- The names that are tried for a file, in this order: its own base, if nothing of it is lost, and then the
base with each tail. -/
def candidates (name : Text) : List Text :=
  let (clean, lossy) := sanitize name
  let (stem, tooLong) := base clean
  let ext := extension clean
  (if !lossy && !tooLong && !stem.isEmpty then [stem ++ ext] else []) ++
    (List.range' 1 999999).map fun i => withTail stem i ++ ext

/-- The names that are tried for a file before `short`. -/
def tried (name short : Text) : List Text := (candidates name).takeWhile (· != short)

theorem toOption_firstFree (base ext : Text) (existing : List Text) (i n : Nat) :
    (firstFree base ext existing i n).toOption.map (· ++ ext) =
      ((List.range' i n).map fun k => withTail base k ++ ext).find? fun t => !existing.contains t := by
  induction n generalizing i with
  | zero => rfl
  | succ n ih =>
    rw [firstFree, List.range'_succ, List.map_cons, List.find?_cons]
    cases existing.contains (withTail base i ++ ext) with
    | true => exact ih (i + 1)
    | false => rfl

/-- The base, if it may stay as it is, is tried before all tails. -/
theorem toOption_uniqueBase (stem ext : Text) (existing : List Text) (lossy tooLong : Bool) :
    (uniqueBase stem ext existing lossy tooLong).toOption.map (· ++ ext) =
      ((if !lossy && !tooLong && !stem.isEmpty then [stem ++ ext] else []) ++
        (List.range' 1 999999).map fun i => withTail stem i ++ ext).find? fun t =>
          !existing.contains t := by
  rw [List.find?_append, ← toOption_firstFree, uniqueBase]
  cases hkeep : !lossy && !tooLong && !stem.isEmpty with
  | false =>
    rw [if_neg (by grind), if_neg (by simp)]
    rfl
  | true =>
    rw [if_pos rfl, List.find?_singleton]
    cases hfree : existing.contains (stem ++ ext) with
    | false =>
      rw [if_pos (by grind)]
      rfl
    | true =>
      rw [if_neg (by grind)]
      rfl

theorem toOption_ofName (name : Text) (existing : List Text) :
    (ofName name existing).toOption = (candidates name).find? fun t => !existing.contains t := by
  simp only [candidates, ← toOption_uniqueBase, ofName]
  cases uniqueBase (base (sanitize name).1).1 (extension (sanitize name).1) existing
    (sanitize name).2 (base (sanitize name).1).2 <;> rfl

theorem ofName_eq_ok_iff {name short : Text} {existing : List Text} :
    ofName name existing = .ok short ↔
      short ∈ candidates name ∧ short ∉ existing ∧ ∀ t ∈ tried name short, t ∈ existing := by
  rw [← toOption_eq_some_iff, toOption_ofName, find?_eq_some_iff_takeWhile]
  simp [tried]

/-- A name with the shape of a short name is tried first for a file that has it as its own name. -/
theorem mem_tried_of_isShort {name short : Text} (h : IsShort name) (hne : short ≠ name) :
    name ∈ tried name short := by
  obtain ⟨stem, ext, rfl, hshape⟩ := h
  have hcandidates : candidates (stem ++ ext) = (stem ++ ext) ::
      (List.range' 1 999999).map fun i => withTail stem i ++ ext := by
    simp [candidates, hshape.sanitize_eq, hshape.base_eq, hshape.extension_eq, hshape.nonempty]
  rw [tried, hcandidates, List.takeWhile_cons, if_pos (by simpa using Ne.symm hne)]
  exact List.mem_cons_self

section Assign

variable {taken taken' names : List Text} {pairs : List (Text × Text)}

theorem isShort_of_assign (h : assign taken names = .ok pairs) : ∀ e ∈ pairs, IsShort e.2 := by
  induction names generalizing taken pairs with
  | nil =>
    rw [← Except.ok.inj h]
    simp
  | cons name names ih =>
    obtain ⟨short, others, hshort, hothers, rfl⟩ := assign_cons_eq_ok h
    exact List.forall_mem_cons.mpr ⟨isShort_of_ofName hshort, ih hothers⟩

theorem assign_cons_of_ok {name short : Text} {others : List (Text × Text)}
    (hshort : ofName name taken = .ok short) (hothers : assign (taken ++ [short]) names = .ok others) :
    assign taken (name :: names) = .ok ((name, short) :: others) := by
  simp [assign, hshort, hothers, bind, Except.bind, pure, Except.pure]

theorem assign_append_eq_ok_iff {before after : List Text} :
    assign taken (before ++ after) = .ok pairs ↔ ∃ first last, assign taken before = .ok first ∧
      assign (taken ++ first.map (·.2)) after = .ok last ∧ pairs = first ++ last := by
  induction before generalizing taken pairs with
  | nil => simp [assign]
  | cons name before ih =>
    rw [List.cons_append]
    constructor
    · intro h
      obtain ⟨short, others, hshort, hothers, rfl⟩ := assign_cons_eq_ok h
      obtain ⟨first, last, hfirst, hlast, rfl⟩ := ih.mp hothers
      refine ⟨(name, short) :: first, last, assign_cons_of_ok hshort hfirst, ?_, rfl⟩
      simpa using hlast
    · rintro ⟨first, last, hfirst, hlast, rfl⟩
      obtain ⟨short, others, hshort, hothers, rfl⟩ := assign_cons_eq_ok hfirst
      apply assign_cons_of_ok hshort
      exact ih.mpr ⟨others, last, hothers, by simpa using hlast, rfl⟩

/-- Whatever was tried for a file before its own short name is taken, by a file before it if not from the
start. -/
theorem mem_of_mem_tried (h : assign taken names = .ok pairs) :
    ∀ e ∈ pairs, ∀ t ∈ tried e.1 e.2, t ∈ taken ∨ t ∈ pairs.map (·.2) := by
  induction names generalizing taken pairs with
  | nil =>
    rw [← Except.ok.inj h]
    simp
  | cons name names ih =>
    obtain ⟨short, others, hshort, hothers, rfl⟩ := assign_cons_eq_ok h
    obtain ⟨-, -, htried⟩ := ofName_eq_ok_iff.mp hshort
    refine List.forall_mem_cons.mpr ⟨fun t ht => .inl (htried t ht), ?_⟩
    intro e he t ht
    have hbefore := ih hothers e he t ht
    simp only [List.mem_append, List.mem_singleton] at hbefore
    simp only [List.map_cons, List.mem_cons]
    tauto

/-- One more name is taken, and no file has it: the files keep their short names. -/
theorem assign_of_more {x : Text} (h : assign taken names = .ok pairs) (hx : x ∉ pairs.map (·.2))
    (htaken : ∀ t, t ∈ taken' ↔ t ∈ taken ∨ t = x) : assign taken' names = .ok pairs := by
  induction names generalizing taken taken' pairs with
  | nil => exact h
  | cons name names ih =>
    obtain ⟨short, others, hshort, hothers, rfl⟩ := assign_cons_eq_ok h
    rw [List.map_cons, List.mem_cons, not_or] at hx
    obtain ⟨hcandidate, hfree, htried⟩ := ofName_eq_ok_iff.mp hshort
    have hshort' : ofName name taken' = .ok short := by
      refine ofName_eq_ok_iff.mpr ⟨hcandidate, ?_, fun t ht => (htaken t).mpr (.inl (htried t ht))⟩
      rw [htaken, not_or]
      exact ⟨hfree, Ne.symm hx.1⟩
    refine assign_cons_of_ok hshort' (ih hothers hx.2 fun t => ?_)
    simp only [List.mem_append, htaken]
    tauto

/-- One more file, and its name has the shape of a short name that no file has: wherever it stands, it gets its
own name and the others keep theirs. -/
theorem exists_assign_middle {before after : List Text} {name : Text}
    (h : assign taken (before ++ after) = .ok pairs) (hshort : IsShort name) (htaken : name ∉ taken)
    (hfree : name ∉ pairs.map (·.2)) :
    ∃ first last, assign taken (before ++ name :: after) = .ok (first ++ (name, name) :: last) ∧
      pairs = first ++ last := by
  obtain ⟨first, last, hfirst, hlast, rfl⟩ := assign_append_eq_ok_iff.mp h
  rw [List.map_append, List.mem_append, not_or] at hfree
  have hnew : name ∉ taken ++ first.map (·.2) := by
    rw [List.mem_append, not_or]
    exact ⟨htaken, hfree.1⟩
  refine ⟨first, last, assign_append_eq_ok_iff.mpr ⟨first, _, hfirst, ?_, rfl⟩, rfl⟩
  apply assign_cons_of_ok (ofName_of_isShort hshort hnew)
  exact assign_of_more hlast hfree.2 fun t => by simp only [List.mem_append, List.mem_singleton]

/-- A taken name `x` becomes free. If it was tried for none of the files, they keep their short names, and
else one of them gets it. -/
theorem assign_of_fewer {x : Text} (h : assign taken names = .ok pairs)
    (htaken : ∀ t, t ∈ taken ↔ t ∈ taken' ∨ t = x) (hx : x ∉ taken') :
    ∃ pairs', assign taken' names = .ok pairs' ∧
      ((∀ e ∈ pairs, x ∉ tried e.1 e.2) → pairs' = pairs) ∧
      ((∃ e ∈ pairs, x ∈ tried e.1 e.2) → x ∈ pairs'.map (·.2)) := by
  induction names generalizing taken taken' pairs x with
  | nil =>
    rw [← Except.ok.inj h]
    exact ⟨[], rfl, fun _ => rfl, by simp⟩
  | cons name names ih =>
    obtain ⟨short, others, hshort, hothers, rfl⟩ := assign_cons_eq_ok h
    obtain ⟨hcandidate, hfree, htried⟩ := ofName_eq_ok_iff.mp hshort
    have hfree' := mt (htaken short).mpr hfree
    rw [not_or] at hfree'
    by_cases hwanted : x ∈ tried name short
    · -- The file takes `x`, and its old short name becomes free for those behind it.
      have hshort' : ofName name taken' = .ok x := by
        refine ofName_eq_ok_iff.mpr ⟨(List.takeWhile_sublist _).subset hwanted, hx, ?_⟩
        intro t ht
        have hne : t ≠ x := by simpa using List.mem_takeWhile_imp ht
        have hmem := (htaken t).mp (htried t (takeWhile_subset_of_mem hwanted ht))
        exact hmem.resolve_right hne
      have hnext : ∀ t, t ∈ taken ++ [short] ↔ t ∈ taken' ++ [x] ∨ t = short := by
        intro t
        simp only [List.mem_append, List.mem_singleton, htaken]
      obtain ⟨others', hothers', -, -⟩ := ih hothers hnext (by simpa using hfree')
      refine ⟨(name, x) :: others', assign_cons_of_ok hshort' hothers', ?_, by simp⟩
      intro hnone
      exact absurd hwanted (hnone (name, short) List.mem_cons_self)
    · -- The file keeps its short name, and `x` stays free for those behind it.
      have hshort' : ofName name taken' = .ok short := by
        refine ofName_eq_ok_iff.mpr ⟨hcandidate, hfree'.1, ?_⟩
        intro t ht
        apply ((htaken t).mp (htried t ht)).resolve_right
        rintro rfl
        exact hwanted ht
      have hnext : ∀ t, t ∈ taken ++ [short] ↔ t ∈ taken' ++ [short] ∨ t = x := by
        intro t
        simp only [List.mem_append, htaken]
        tauto
      have hx' : x ∉ taken' ++ [short] := by
        simpa [hx] using Ne.symm hfree'.2
      obtain ⟨others', hothers', hkeep, hgets⟩ := ih hothers hnext hx'
      refine ⟨(name, short) :: others', assign_cons_of_ok hshort' hothers', ?_, ?_⟩
      · intro hnone
        rw [hkeep (List.forall_mem_cons.mp hnone).2]
      · rintro ⟨e, he, htried'⟩
        rcases List.mem_cons.mp he with rfl | hlater
        · exact absurd htried' hwanted
        · exact List.mem_cons_of_mem _ (hgets ⟨e, hlater, htried'⟩)

end Assign

end ShortName

namespace Disk

variable {d : Disk} {name : Text}

theorem hostName?_eq_none_iff : d.hostName? name = none ↔ name ∉ d.shortNames := by
  rw [hostName?, Option.map_eq_none_iff, List.find?_eq_none, shortNames, List.mem_map]
  simp only [beq_iff_eq, not_exists, not_and]

/-- One file with the bytes came to the folder, under a name that was free, and it is listed. All other
entries are as they were. -/
def AddsFile (d d' : Disk) (bytes : List UInt8) : Prop :=
  ∃ host, d.folder.find? host = none ∧
    (∀ k, d'.folder.find? k = if k = host then some (.file bytes) else d.folder.find? k) ∧
    ∃ short ∈ d'.shortNames, d'.existingPath short = .ok host

section New

variable (hf : d.folder.IsListing) (hread : d.UpToDate) (hnew : d.folder.find? name = none)
  (hunlisted : name ∉ d.shortNames)
include hf hread hnew hunlisted

/-- Reading the disk with a new file that has the shape of a short name: it gets its own name, and all other
files keep theirs. -/
theorem exists_table_insert (hd : d.host.Searchable) (horder : d.host.KeepsOrder)
    (hshort : ShortName.IsShort name) :
    ∃ first last, table { d with folder := d.folder.insert name (.file []) } =
      .ok (first ++ (name, name) :: last) ∧ d.names = first ++ last := by
  have hname := Folder.isName_of_isShort hshort
  obtain ⟨before, after, hnames, hinsert⟩ := horder.exists_fileNames_insert hf hname hnew []
  have hread' := hread
  rw [UpToDate, table_eq_assign hd hf, hnames] at hread'
  let made : Disk := { d with folder := d.folder.insert name (.file []) }
  have htable : made.table = ShortName.assign [] (before ++ name :: after) :=
    (table_eq_assign (d := made) hd (hf.insert hname (.file []))).trans (congrArg _ hinsert)
  rw [htable]
  exact ShortName.exists_assign_middle hread' hshort List.not_mem_nil hunlisted

/-- A file with the shape of a short name is made and written under that name, and it is listed. -/
theorem save_adds (hd : d.host.Willing) (horder : d.host.KeepsOrder) (hshort : ShortName.IsShort name)
    (bytes : List UInt8) : ∃ d', (save name bytes).run d = (.ok (), d') ∧ d.AddsFile d' bytes := by
  have hname := Folder.isName_of_isShort hshort
  have hfull : name ∉ d.fullNames := by
    rw [fullNames_of_upToDate hd.searchable hf hread, hf.mem_fileNames_iff, hnew]
    simp
  obtain ⟨first, last, htable, -⟩ :=
    exists_table_insert hf hread hnew hunlisted hd.searchable horder hshort
  have hready : d.ready name = .ok (d.folder.insert name (.file [])) := by
    rw [ready, hd.searchable.exists? d.folder hname, hnew]
    exact Host.make_name hname (hd.grants d.folder .make name hname) hnew
  -- The disk with the empty file, read again.
  let made : Disk := ⟨d.folder.insert name (.file []), d.host, first ++ (name, name) :: last⟩
  have hlisted : made.hostName? name = some name :=
    (hostName?_eq_some_iff (d := made) (ShortName.assign_nodup (UpToDate.assign (d := made) htable)).1).mpr
      (by simp [made])
  have hpath : made.path name = name := by rw [path, hlisted, Option.getD_some]
  have hadd : (newPath name).run d = (.ok name, made) := by
    simp only [newPath, Run.run_bind, Run.run_get, hostName?_eq_none_iff.mpr hunlisted, run_addFile,
      ShortName.ofName_of_isShort hshort hfull, hready, run_refresh, htable]
    exact Prod.ext (congrArg Except.ok hpath) rfl
  have hopens : made.host.Opens made.folder name (.entry name) :=
    ⟨Host.reach_name hname (hd.grants _ _ _ hname), by simp [made, Folder.entryAt?, Folder.find?_insert]⟩
  have hwrite : (made.host.write name bytes).run made.folder =
      (.ok (), made.folder.insert name (.file bytes)) := by
    rw [Host.run_write_of_opens hopens, show made.host.cuts _ name bytes = none from hd.completes _ _ _ hname]
    rfl
  let saved : Disk := { made with folder := made.folder.insert name (.file bytes) }
  have hfound : saved.folder.find? name = some (.file bytes) := by
    simp [saved, Folder.find?_insert]
  refine ⟨saved, ?_, name, hnew, ?_, name, ?_, ?_⟩
  · simp only [save, Run.run_bind, hadd, Run.run_get, onFolder, Run.run_onPart, hwrite]
    rfl
  · intro k
    simp only [saved, made, Folder.find?_insert]
    split <;> rfl
  · simp [saved, made, shortNames]
  · have hpath' : saved.path name = name := hpath
    rw [← hpath'] at hname hfound
    rw [existingPath_of_isName (d := saved) hd.searchable hname hfound, hpath']

omit hread in
/-- Under any other name a file is written that the table does not list. -/
theorem isShort_of_adds (hd : d.host.Searchable) (hname : Folder.IsName name) {bytes : List UInt8} {d' : Disk}
    (hsave : (save name bytes).run d = (.ok (), d')) (h : d.AddsFile d' bytes) :
    ShortName.IsShort name := by
  by_contra hlong
  rcases save_cases d name bytes with ⟨e, d₁, -, -, hrun⟩ | ⟨d₁, result, folder, -, hprepared, hwrite, -, hrun⟩
  · rw [hrun] at hsave
    cases hsave
  rw [hrun] at hsave
  cases hsave
  obtain ⟨hread₁, short, hshort, hfolder⟩ := hprepared.reserved (hostName?_eq_none_iff.mpr hunlisted)
  have hd₁ : d₁.host.Searchable := hprepared.host ▸ hd
  have hvalid := Folder.isName_of_isShort (ShortName.isShort_of_ofName hshort)
  have hf₁ : d₁.folder.IsListing := hfolder ▸ hf.reserve hvalid
  have hpath : d₁.path name = name := by
    have hnot : name ∉ d₁.shortNames := by
      intro hmem
      obtain ⟨e, he, rfl⟩ := List.mem_map.mp hmem
      exact hlong (ShortName.isShort_of_assign hread₁.assign e he)
    rw [path, hostName?_eq_none_iff.mpr hnot, Option.getD_none]
  rw [hpath] at hwrite
  cases hwrite with
  | written hopens _ =>
    obtain ⟨rfl, -⟩ := hopens.plain hname.slash
    obtain ⟨host, -, hentries, listed, hlisted, hleads⟩ := h
    -- The file that was added is the one that was written.
    have hhost : name = host := by
      by_contra hne
      have hentry := hentries name
      rw [if_neg hne, Folder.put, Folder.find?_insert, if_pos rfl, hnew] at hentry
      cases hentry
    -- But the table was made before it was written.
    have hmem : name ∈ d₁.host.fileNames d₁.folder := by
      rw [← fullNames_of_upToDate hd₁ hf₁ hread₁, hhost, (existingPath_eq_ok hleads).1, path]
      cases hfound : hostName? { d₁ with folder := d₁.folder.put (.entry name) (.file bytes) } listed with
      | none => exact absurd hlisted (hostName?_eq_none_iff.mp hfound)
      | some found => exact mem_fullNames_of_hostName? hfound
    obtain ⟨old, hold⟩ := hf₁.mem_fileNames_iff.mp hmem
    rw [hfolder, Folder.find?_reserve] at hold
    split at hold
    · next heq => exact hlong (heq ▸ ShortName.isShort_of_ofName hshort)
    · rw [hnew] at hold
      cases hold

end New

/-- After a listed file was deleted its short name is gone, and every other one leads to the file that it led
to before. -/
structure KeepsNames (d d' : Disk) (name : Text) : Prop where
  gone : d'.hasFile name = .ok false
  others : ∀ short ∈ d.shortNames, short ≠ name →
    ∃ host, d.existingPath short = .ok host ∧ d'.existingPath short = .ok host

section Deleted

variable (hd : d.host.Searchable) (hf : d.folder.IsListing) (hread : d.UpToDate)
include hd hf hread

/-- Naming the files without one of them: those before it keep their short names, and so do those behind it
unless its short name was tried for one of them. -/
theorem exists_assign_without {host : Text} (hmem : (host, name) ∈ d.names) :
    ∃ first last last', d.names = first ++ (host, name) :: last ∧
      ShortName.assign [] ((d.host.fileNames d.folder).filter (· != host)) = .ok (first ++ last') ∧
      (∀ e ∈ first, name ∉ ShortName.tried e.1 e.2) ∧
      ((∀ e ∈ last, name ∉ ShortName.tried e.1 e.2) → last' = last) ∧
      ((∃ e ∈ last, name ∈ ShortName.tried e.1 e.2) → name ∈ last'.map (·.2)) := by
  obtain ⟨first, last, hnames⟩ := List.append_of_mem hmem
  have hfiles : d.host.fileNames d.folder = first.map (·.1) ++ host :: last.map (·.1) := by
    rw [← fullNames_of_upToDate hd hf hread, fullNames, hnames]
    simp
  have htable := hread
  rw [UpToDate, table_eq_assign hd hf, hfiles, hnames] at htable
  obtain ⟨first', rest, hfirst, hrest, heq⟩ := ShortName.assign_append_eq_ok_iff.mp htable
  have hlength : first.length = first'.length := by
    have hhosts := congrArg List.length (ShortName.assign_hosts hfirst)
    simpa using hhosts.symm
  obtain ⟨rfl, rfl⟩ := List.append_inj heq hlength
  obtain ⟨short, others, hshort, hlast, hcons⟩ := ShortName.assign_cons_eq_ok hrest
  cases hcons
  have hfree := ShortName.not_mem_of_ofName hshort
  rw [List.nil_append] at hlast hfree
  -- Only the files behind the missing one are named anew, with one taken name fewer.
  have hfewer (t : Text) : t ∈ first.map (·.2) ++ [name] ↔ t ∈ first.map (·.2) ∨ t = name := by simp
  obtain ⟨last', hlast', hkeep, hgets⟩ := ShortName.assign_of_fewer hlast hfewer hfree
  refine ⟨first, last, last', hnames, ?_, ?_, hkeep, hgets⟩
  · have hnodup := hf.nodup_fileNames d.host
    rw [hfiles] at hnodup ⊢
    rw [filter_ne_middle hnodup]
    exact ShortName.assign_append_eq_ok_iff.mpr ⟨first, last', hfirst, by simpa using hlast', rfl⟩
  · intro e he htried
    rcases ShortName.mem_of_mem_tried hfirst e he name htried with hnone | hearlier
    · cases hnone
    · exact hfree hearlier

theorem hasFile_of_listed (hlisted : name ∈ d.shortNames) : d.hasFile name = .ok true := by
  obtain ⟨host, bytes, hpath, hfile⟩ := (bijective_of_upToDate hd hf hread).resolves name hlisted
  obtain ⟨rfl, -⟩ := existingPath_eq_ok hpath
  rw [hasFile_of_isName hd (hf.isName hfile), Folder.hasFile, hfile]
  rfl

/-- A name that no file has tried leads to no file when it is not listed. -/
theorem hasFile_of_untried (hshort : ShortName.IsShort name) (hunlisted : name ∉ d.shortNames)
    (huntried : ∀ e ∈ d.names, name ∉ ShortName.tried e.1 e.2) : d.hasFile name = .ok false := by
  have hpath : d.path name = name := by
    rw [path, hostName?_eq_none_iff.mpr hunlisted, Option.getD_none]
  have hname : Folder.IsName (d.path name) := by
    rw [hpath]
    exact Folder.isName_of_isShort hshort
  rw [hasFile_of_isName hd hname, hpath, Except.ok.injEq]
  by_contra hthere
  -- A file with this name would have tried it first.
  have hfile := Folder.hasFile_iff.mp (Bool.eq_true_of_not_eq_false hthere)
  have hmem := (hf.mem_fileNames_iff (h := d.host)).mpr hfile
  rw [← fullNames_of_upToDate hd hf hread] at hmem
  obtain ⟨e, hentry, heq⟩ := List.mem_map.mp hmem
  have hne : e.2 ≠ name := by
    rintro rfl
    exact hunlisted (List.mem_map_of_mem hentry)
  have htried := ShortName.mem_tried_of_isShort hshort hne
  rw [← heq] at htried
  exact huntried e hentry (heq ▸ htried)

theorem file_of_mem {host : Text} (hmem : (host, name) ∈ d.names) :
    (∃ bytes, d.folder.find? host = some (.file bytes)) ∧ d.existingPath name = .ok host := by
  have hbijective := bijective_of_upToDate hd hf hread
  have hhost := (hostName?_eq_some_iff hbijective.listed).mpr hmem
  obtain ⟨bytes, hfile⟩ := (hbijective.covers host).mp ⟨name, (hbijective.inverse host name).mp hhost⟩
  exact ⟨⟨bytes, hfile⟩, existingPath_of_hostName? hd hf hhost hfile⟩

theorem run_delete_listed {host : Text} (hmem : (host, name) ∈ d.names)
    (hgranted : d.host.refuses d.folder .remove host = none) :
    (delete name).run d = refresh.run { d with folder := d.folder.erase host } := by
  obtain ⟨⟨bytes, hfile⟩, hpath⟩ := file_of_mem hd hf hread hmem
  simp [delete, Run.run_bind, hpath, Host.remove_name (hf.isName hfile) hgranted hfile]

end Deleted

/-- Deleting a listed file takes it out of the folder, if the host allows it. Its short name is gone then and the
others stay where they are, just when it was tried for no other file. -/
theorem delete_keeps_names_iff (d : Disk) (name : Text) (hd : d.host.Searchable)
    (horder : d.host.KeepsOrder) (hf : d.folder.IsListing) (hread : d.UpToDate)
    (hlisted : name ∈ d.shortNames)
    (hgranted : ∀ host, d.existingPath name = .ok host → d.host.refuses d.folder .remove host = none) :
    ∃ d' host, (delete name).run d = (.ok (), d') ∧ d.existingPath name = .ok host ∧
      d'.folder = d.folder.erase host ∧
      (d.KeepsNames d' name ↔ ∀ e ∈ d.names, name ∉ ShortName.tried e.1 e.2) := by
  obtain ⟨⟨host, name⟩, hmem, rfl⟩ := List.mem_map.mp hlisted
  obtain ⟨first, last, last', hnames, htable, hfirst, hkeep, hgets⟩ :=
    exists_assign_without hd hf hread hmem
  have hpath := (file_of_mem hd hf hread hmem).2
  have hf' := hf.erase host
  rw [← horder d.folder host hf] at htable
  let d' : Disk := ⟨d.folder.erase host, d.host, first ++ last'⟩
  have hread' : d'.UpToDate := (table_eq_assign (d := d') hd hf').trans htable
  refine ⟨d', host, ?_, hpath, rfl, ?_, ?_⟩
  · have htable' : table { d with folder := d.folder.erase host } = .ok (first ++ last') := hread'
    rw [run_delete_listed hd hf hread hmem (hgranted host hpath), run_refresh, htable']
  · intro hkeeps e he htried
    have hbehind : e ∈ last := by
      rw [hnames, List.mem_append, List.mem_cons] at he
      rcases he with hbefore | rfl | hbehind
      · exact absurd htried (hfirst e hbefore)
      · simpa using List.mem_takeWhile_imp htried
      · exact hbehind
    -- The name went to another file, so it still leads to one.
    have hlisted' : name ∈ d'.shortNames := by
      rw [shortNames, List.map_append]
      exact List.mem_append_right _ (hgets ⟨e, hbehind, htried⟩)
    have hthere := hasFile_of_listed (d := d') hd hf' hread' hlisted'
    rw [hkeeps.gone] at hthere
    cases hthere
  · intro huntried
    have hmem_iff (e : Text × Text) : e ∈ d.names ↔ e = (host, name) ∨ e ∈ first ++ last := by
      rw [hnames]
      simp [or_left_comm]
    obtain rfl := hkeep fun e he => huntried e ((hmem_iff e).mpr (.inr (List.mem_append_right _ he)))
    have hnodup := (bijective_of_upToDate hd hf hread).listed
    rw [shortNames, hnames, List.map_append, List.map_cons] at hnodup
    have hout := (List.nodup_cons.mp (List.nodup_middle.mp hnodup)).1
    rw [← List.map_append] at hout
    constructor
    case gone =>
      apply hasFile_of_untried (d := d') hd hf' hread' (ShortName.isShort_of_assign hread.assign _ hmem) hout
      exact fun e he => huntried e ((hmem_iff e).mpr (.inr he))
    case others =>
      intro short hshort hne
      obtain ⟨⟨other, _⟩, he, rfl⟩ := List.mem_map.mp hshort
      have he' := ((hmem_iff _).mp he).resolve_left fun heq => hne (congrArg Prod.snd heq)
      exact ⟨other, (file_of_mem hd hf hread he).2, (file_of_mem (d := d') hd hf' hread' he').2⟩

def readRivals : Disk := (refresh.run { folder := rivals }).2

theorem isListing_readRivals : readRivals.folder.IsListing :=
  ⟨by decide +kernel, by decide +kernel⟩

theorem upToDate_readRivals : readRivals.UpToDate := by decide +kernel

/-- The name of the fourth file, which no other file wanted. -/
theorem delete_keeps_names_tail :
    readRivals.host.Searchable ∧ readRivals.host.KeepsOrder ∧ readRivals.folder.IsListing ∧
      readRivals.UpToDate ∧ "NOTES~3.TXT".toList ∈ readRivals.shortNames ∧
      ∃ d' host, (delete "NOTES~3.TXT".toList).run readRivals = (.ok (), d') ∧
        readRivals.existingPath "NOTES~3.TXT".toList = .ok host ∧
        d'.folder = readRivals.folder.erase host ∧
        readRivals.KeepsNames d' "NOTES~3.TXT".toList := by
  have hlisted : "NOTES~3.TXT".toList ∈ readRivals.shortNames := by decide +kernel
  have huntried : ∀ e ∈ readRivals.names, "NOTES~3.TXT".toList ∉ ShortName.tried e.1 e.2 := by
    decide +kernel
  obtain ⟨d', host, hrun, hpath, hfolder, hkeeps⟩ :=
    delete_keeps_names_iff readRivals _ Host.willing_alone.searchable Host.keepsOrder_alone
      isListing_readRivals upToDate_readRivals hlisted fun _ _ => rfl
  exact ⟨Host.willing_alone.searchable, Host.keepsOrder_alone, isListing_readRivals, upToDate_readRivals, hlisted, d', host, hrun, hpath, hfolder,
    hkeeps.mpr huntried⟩

/-- When the second file is deleted, the third one takes its name: the name still leads to a file, and the old
name of the third file leads nowhere. -/
theorem delete_passes_name_on :
    readRivals.folder.IsListing ∧ readRivals.UpToDate ∧ "NOTES.TXT".toList ∈ readRivals.shortNames ∧
      ((delete "NOTES.TXT".toList).run readRivals).1 = .ok () ∧
      ¬readRivals.KeepsNames ((delete "NOTES.TXT".toList).run readRivals).2 "NOTES.TXT".toList := by
  refine ⟨isListing_readRivals, upToDate_readRivals, by decide +kernel, by decide +kernel, ?_⟩
  intro hkeeps
  have hthere : ((delete "NOTES.TXT".toList).run readRivals).2.hasFile "NOTES.TXT".toList = .ok true := by
    decide +kernel
  rw [hkeeps.gone] at hthere
  cases hthere

end Disk

namespace Machine

/-- Saving `n` bytes from `a` on under a new name returns and adds one listed file with these bytes, and
nothing else, just when the name has the shape of a short name. The host grants what is asked for, and lists the
old files in the same order with the new one between them. -/
theorem saveFile_adds_iff (m : Machine) (name : Text) (a n : Int) (hd : m.disk.host.Willing)
    (horder : m.disk.host.KeepsOrder) (hf : m.disk.folder.IsListing) (hread : m.disk.UpToDate)
    (hname : Folder.IsName name) (hnew : m.disk.folder.find? name = none)
    (hunlisted : name ∉ m.disk.shortNames) :
    ((saveFile name a n).run m).1 = .ok () ∧
        m.disk.AddsFile ((saveFile name a n).run m).2.disk (m.memory.readData a n) ↔
      ShortName.IsShort name := by
  rw [run_saveFile]
  constructor
  · rintro ⟨hok, hadds⟩
    exact Disk.isShort_of_adds hf hnew hunlisted hd.searchable hname (Prod.ext hok rfl) hadds
  · intro hshort
    obtain ⟨d', hsave, hadds⟩ :=
      Disk.save_adds hf hread hnew hunlisted hd horder hshort (m.memory.readData a n)
    rw [hsave]
    exact ⟨rfl, hadds⟩

/-- A machine with some bytes in memory and the five rivals on its disk. -/
def withRivals : Machine where
  memory := Memory.fresh.write 100 [1, 2, 3, 4]
  disk := Disk.readRivals

theorem saveFile_adds_tail :
    withRivals.disk.host.Willing ∧ withRivals.disk.host.KeepsOrder ∧
      withRivals.disk.folder.IsListing ∧ withRivals.disk.UpToDate ∧
      Folder.IsName "NOTES~4.TXT".toList ∧
      withRivals.disk.folder.find? "NOTES~4.TXT".toList = none ∧
      "NOTES~4.TXT".toList ∉ withRivals.disk.shortNames ∧
      ((saveFile "NOTES~4.TXT".toList 100 4).run withRivals).1 = .ok () ∧
      withRivals.disk.AddsFile ((saveFile "NOTES~4.TXT".toList 100 4).run withRivals).2.disk
        (withRivals.memory.readData 100 4) := by
  have hname : Folder.IsName "NOTES~4.TXT".toList := by decide +kernel
  have hnew : withRivals.disk.folder.find? "NOTES~4.TXT".toList = none := by decide +kernel
  have hunlisted : "NOTES~4.TXT".toList ∉ withRivals.disk.shortNames := by decide +kernel
  have hkept : ShortName.ofName "NOTES~4.TXT".toList [] = .ok "NOTES~4.TXT".toList := by decide +kernel
  refine ⟨Host.willing_alone, Host.keepsOrder_alone, Disk.isListing_readRivals, Disk.upToDate_readRivals,
    hname, hnew, hunlisted, ?_⟩
  exact (saveFile_adds_iff withRivals _ 100 4 Host.willing_alone Host.keepsOrder_alone
    Disk.isListing_readRivals Disk.upToDate_readRivals hname hnew hunlisted).mpr
      (ShortName.isShort_of_ofName hkept)

/-- Saving under a name in small letters makes two files: an empty one, which is listed, and one with the
bytes, which is not. -/
theorem saveFile_adds_two :
    withRivals.disk.folder.IsListing ∧ withRivals.disk.UpToDate ∧ Folder.IsName "hello.txt".toList ∧
      withRivals.disk.folder.find? "hello.txt".toList = none ∧
      "hello.txt".toList ∉ withRivals.disk.shortNames ∧
      ((saveFile "hello.txt".toList 100 4).run withRivals).1 = .ok () ∧
      ¬withRivals.disk.AddsFile ((saveFile "hello.txt".toList 100 4).run withRivals).2.disk
        (withRivals.memory.readData 100 4) := by
  refine ⟨Disk.isListing_readRivals, Disk.upToDate_readRivals, by decide +kernel, by decide +kernel,
    by decide +kernel, by decide +kernel, ?_⟩
  rintro ⟨host, -, hentries, -⟩
  have hempty : ((saveFile "hello.txt".toList 100 4).run withRivals).2.disk.folder.find?
      "HELLO.TXT".toList = some (.file []) := by decide +kernel
  have hfree : withRivals.disk.folder.find? "HELLO.TXT".toList = none := by decide +kernel
  have hbytes : withRivals.memory.readData 100 4 = [1, 2, 3, 4] := by decide +kernel
  have hentry := hentries "HELLO.TXT".toList
  rw [hempty, hfree, hbytes] at hentry
  split at hentry <;> cases hentry

end Machine
end BasicMachine
