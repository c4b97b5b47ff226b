import BasicMachine.Proofs.DiskTable

/-! The entries of a folder. Every name stands for one entry, so the bytes of the files can be counted: an entry
that is put in or taken out changes the count by what it holds. The order in which a host lists the files is
another matter. Where it hangs on the names alone, a file that comes or goes leaves the others in their order. -/
namespace BasicMachine

section Named

variable {α : Type} {name : Text} {a : α} {entries : List (Text × α)}

theorem mem_setNamed {e : Text × α} (h : e ∈ setNamed name a entries) : e = (name, a) ∨ e ∈ entries := by
  induction entries with
  | nil => exact .inl (List.mem_singleton.mp h)
  | cons x rest ih =>
    obtain ⟨other, b⟩ := x
    rw [setNamed] at h
    split at h
    · next heq =>
      rcases List.mem_cons.mp h with rfl | hrest
      · exact .inl (by rw [heq])
      · exact .inr (List.mem_cons_of_mem _ hrest)
    · rcases List.mem_cons.mp h with rfl | hrest
      · exact .inr List.mem_cons_self
      · exact (ih hrest).imp_right (List.mem_cons_of_mem _)

theorem eraseNamed_of_lookup (h : entries.lookup name = none) : eraseNamed name entries = entries := by
  apply List.filter_eq_self.mpr
  intro x hx
  have hother := List.lookup_eq_none_iff.mp h x hx
  rw [bne_iff_ne] at hother ⊢
  exact Ne.symm hother

theorem eraseNamed_setNamed : eraseNamed name (setNamed name a entries) = eraseNamed name entries := by
  unfold eraseNamed
  induction entries with
  | nil => simp [setNamed]
  | cons x rest ih =>
    obtain ⟨other, b⟩ := x
    rw [setNamed]
    split
    · next heq => simp [heq]
    · rw [List.filter_cons, List.filter_cons, ih]

theorem perm_cons_eraseNamed (h : (entries.map (·.1)).Nodup) (hfind : entries.lookup name = some a) :
    entries.Perm ((name, a) :: eraseNamed name entries) := by
  obtain ⟨before, after, rfl, -⟩ := List.lookup_eq_some_iff.mp hfind
  rw [List.map_append, List.map_cons] at h
  have hrest := List.nodup_middle.mp h
  obtain ⟨hout, -⟩ := List.nodup_cons.mp hrest
  rw [← List.map_append] at hout
  have hkeep : eraseNamed name (before ++ (name, a) :: after) = before ++ after := by
    unfold eraseNamed
    rw [List.filter_append, List.filter_cons_of_neg (by simp), ← List.filter_append]
    apply List.filter_eq_self.mpr
    intro x hx
    rw [bne_iff_ne]
    rintro rfl
    exact hout (List.mem_map.mpr ⟨x, hx, rfl⟩)
  rw [hkeep]
  exact List.perm_middle

theorem nodup_setNamed (h : (entries.map (·.1)).Nodup) :
    ((setNamed name a entries).map (·.1)).Nodup := by
  induction entries with
  | nil => simp [setNamed]
  | cons x rest ih =>
    obtain ⟨other, b⟩ := x
    obtain ⟨hout, hrest⟩ := List.nodup_cons.mp h
    rw [setNamed]
    split
    · exact h
    · next hne =>
      refine List.nodup_cons.mpr ⟨?_, ih hrest⟩
      intro hmem
      obtain ⟨e, he, heq⟩ := List.mem_map.mp hmem
      rcases mem_setNamed he with rfl | hold
      · exact hne heq.symm
      · exact hout (List.mem_map.mpr ⟨e, hold, heq⟩)

theorem setNamed_perm (h : (entries.map (·.1)).Nodup) :
    (setNamed name a entries).Perm ((name, a) :: eraseNamed name entries) := by
  have hfind : (setNamed name a entries).lookup name = some a := by rw [lookup_setNamed, if_pos rfl]
  have hperm := perm_cons_eraseNamed (nodup_setNamed h) hfind
  rwa [eraseNamed_setNamed] at hperm

end Named

theorem filter_ne_middle {before after : List Text} {name : Text} (h : (before ++ name :: after).Nodup) :
    (before ++ name :: after).filter (· != name) = before ++ after := by
  rw [List.filter_append, List.filter_cons_of_neg (by simp), ← List.filter_append]
  apply List.filter_eq_self.mpr
  intro other hother
  rw [bne_iff_ne]
  rintro rfl
  exact (List.nodup_cons.mp (List.nodup_middle.mp h)).1 hother

namespace Folder

variable {f : Folder} {name : Text}

theorem erase_of_find? (h : f.find? name = none) : f.erase name = f := by
  rw [erase, eraseNamed_of_lookup h]

theorem erase_insert (h : f.find? name = none) (e : Entry) : (f.insert name e).erase name = f := by
  have herase : (f.insert name e).erase name = f.erase name :=
    congrArg (fun entries => ({ f with entries } : Folder)) eraseNamed_setNamed
  rw [herase, erase_of_find? h]

theorem hasFile_erase (f : Folder) (name k : Text) :
    (f.erase name).hasFile k = (k != name && f.hasFile k) := by
  rw [hasFile, find?_erase]
  by_cases hk : k = name
  · simp [hk]
  · simp [hk, hasFile]

theorem IsListing.erase (hf : f.IsListing) (name : Text) : (f.erase name).IsListing :=
  ⟨fun e he => hf.named e (List.mem_of_mem_filter he),
    hf.distinct.sublist (List.filter_sublist.map _)⟩

theorem IsListing.insert (hf : f.IsListing) (hname : IsName name) (e : Entry) :
    (f.insert name e).IsListing := by
  refine ⟨?_, nodup_setNamed hf.distinct⟩
  intro x hx
  rcases mem_setNamed hx with rfl | hold
  · exact hname
  · exact hf.named x hold

theorem IsListing.of_perm {f f' : Folder} (hf : f.IsListing) (h : f'.entries.Perm f.entries) :
    f'.IsListing ∧ ∀ k, f'.find? k = f.find? k := by
  have hf' : f'.IsListing :=
    ⟨fun e he => hf.named e (h.subset he), (h.map _).nodup_iff.mpr hf.distinct⟩
  refine ⟨hf', fun k => Option.ext fun e => ?_⟩
  rw [hf'.find?_eq_some_iff, hf.find?_eq_some_iff, h.mem_iff]

/-- The bytes that an entry adds to the files of a folder: its own, if it is a file. -/
def bytesOf? : Entry → Option (List UInt8)
  | .file bytes => some bytes
  | .folder _ => none

/-- The contents of the files of a folder, each as often as it occurs. -/
def contents (f : Folder) : Multiset (List UInt8) := ↑(f.entries.filterMap fun e => bytesOf? e.2)

/-- What the entry under a name adds to the contents. -/
def held (e : Option Entry) : Multiset (List UInt8) := ↑(e.bind bytesOf?).toList

theorem contents_of_perm {f g : Folder} {e : Entry} (h : f.entries.Perm ((name, e) :: g.entries)) :
    f.contents = held (some e) + g.contents := by
  have hperm := h.filterMap fun e => bytesOf? e.2
  rw [contents, Multiset.coe_eq_coe.mpr hperm, List.filterMap_cons]
  cases e with
  | file bytes => rfl
  | folder place => rfl

theorem contents_erase (hf : f.IsListing) (name : Text) :
    f.contents = held (f.find? name) + (f.erase name).contents := by
  cases hfind : f.find? name with
  | none =>
    rw [erase_of_find? hfind]
    simp [held]
  | some e => exact contents_of_perm (g := f.erase name) (perm_cons_eraseNamed hf.distinct hfind)

theorem contents_insert (hf : f.IsListing) (name : Text) (e : Entry) :
    (f.insert name e).contents = held (some e) + (f.erase name).contents :=
  contents_of_perm (g := f.erase name) (setNamed_perm hf.distinct)

end Folder

namespace Host

variable {h : Host}

/-- A file that comes or goes leaves the others in the order in which they were listed. -/
def KeepsOrder (h : Host) : Prop :=
  ∀ f name, f.IsListing → h.fileNames (f.erase name) = (h.fileNames f).filter (· != name)

theorem keepsOrder_alone : alone.KeepsOrder := by
  intro f name _
  have hnames : alone.listed (f.erase name) = (alone.listed f).filter (· != name) := by
    rw [show alone.listed f = f.entries.map (·.1) from rfl, List.filter_map]
    rfl
  rw [fileNames, fileNames, hnames, List.filter_filter, List.filter_filter]
  apply List.filter_congr
  intro k _
  rw [Folder.hasFile_erase]
  cases k != name <;> simp

/-- A host that always lists by the same order of the names keeps the order. -/
theorem keepsOrder_of_pairwise {r : Text → Text → Prop} (hr : ∀ a b, r a b → r b a → a = b)
    (hlisted : ∀ f, f.IsListing → (h.listed f).Pairwise r) : h.KeepsOrder := by
  intro f name hf
  have hf' := hf.erase name
  have hsorted {f : Folder} (hf : f.IsListing) : (h.fileNames f).Pairwise r :=
    (hlisted f hf).sublist List.filter_sublist
  have hsame : (h.fileNames (f.erase name)).Perm ((h.fileNames f).filter (· != name)) := by
    rw [List.perm_ext_iff_of_nodup (hf'.nodup_fileNames h) ((hf.nodup_fileNames h).filter _)]
    intro k
    rw [hf'.mem_fileNames_iff, List.mem_filter, hf.mem_fileNames_iff, Folder.find?_erase]
    by_cases hk : k = name <;> simp [hk]
  exact hsame.eq_of_pairwise (fun a b _ _ => hr a b) (hsorted hf')
    ((hsorted hf).sublist List.filter_sublist)

/-- So does the host that lists the names in order. -/
theorem keepsOrder_byName : byName.KeepsOrder := by
  apply keepsOrder_of_pairwise (r := fun a b => ¬b < a)
  · intro a b hab hba
    exact le_antisymm (not_lt.mp hab) (not_lt.mp hba)
  · intro f _
    have hsorted : (byName.listed f).Pairwise fun a b => (!decide (b < a)) = true := by
      apply List.pairwise_mergeSort
      · intro a b c hab hbc
        simp only [Bool.not_eq_true', decide_eq_false_iff_not] at hab hbc ⊢
        exact List.le_trans hab hbc
      · intro a b
        simp only [Bool.or_eq_true, Bool.not_eq_true', decide_eq_false_iff_not]
        exact List.le_total a b
    refine hsorted.imp fun {a b} hab => ?_
    simpa using hab

/-- A new file is listed somewhere among the others, which are in the order that they had without it. -/
theorem KeepsOrder.exists_fileNames_insert (hh : h.KeepsOrder) {f : Folder} (hf : f.IsListing) {name : Text}
    (hname : Folder.IsName name) (hfree : f.find? name = none) (bytes : List UInt8) :
    ∃ before after, h.fileNames f = before ++ after ∧
      h.fileNames (f.insert name (.file bytes)) = before ++ name :: after := by
  have hf' := hf.insert hname (.file bytes)
  have hfile : (f.insert name (.file bytes)).find? name = some (.file bytes) := by
    rw [Folder.find?_insert, if_pos rfl]
  obtain ⟨before, after, hsplit⟩ :=
    List.append_of_mem ((hf'.mem_fileNames_iff (h := h)).mpr ⟨bytes, hfile⟩)
  have hnodup := hf'.nodup_fileNames h
  have horder := hh _ name hf'
  rw [hsplit] at hnodup
  rw [Folder.erase_insert hfree, hsplit, filter_ne_middle hnodup] at horder
  exact ⟨before, after, horder, hsplit⟩

end Host
end BasicMachine
