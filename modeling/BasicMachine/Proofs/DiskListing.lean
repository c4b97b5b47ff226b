import BasicMachine.Disk
import BasicMachine.Proofs.HostAnswers

/-! The listing of a disk. Short names are made of valid characters alone, and a file that is listed under
a short name is found and read under it. -/
namespace BasicMachine

namespace ShortName

def Valid (t : Text) : Prop := ∀ c ∈ t, isValidChar c = true

theorem Valid.append {t u : Text} (ht : Valid t) (hu : Valid u) : Valid (t ++ u) := by
  intro c hc
  rcases List.mem_append.mp hc with h | h
  · exact ht c h
  · exact hu c h

theorem Valid.sublist {t u : Text} (ht : Valid t) (h : u.Sublist t) : Valid u :=
  fun c hc => ht c (h.subset hc)

theorem valid_sanitize (name : Text) : Valid (sanitize name).1 := by
  intro c hc
  obtain ⟨d, -, rfl⟩ := List.mem_map.mp hc
  split
  · assumption
  · decide

theorem valid_base {name : Text} (h : Valid name) : Valid (base name).1 :=
  h.sublist ((List.take_sublist _ _).trans (List.takeWhile_sublist _))

theorem valid_extension {name : Text} (h : Valid name) : Valid (extension name) := by
  have hafter : Valid (name.reverse.takeWhile (· != '.')).reverse := by
    intro c hc
    have hmem := (List.takeWhile_sublist _).subset (List.mem_reverse.mp hc)
    exact h c (List.mem_reverse.mp hmem)
  have hnil : Valid [] := fun c hc => absurd hc (by simp)
  unfold extension
  split
  · split
    · exact hnil
    · exact List.forall_mem_cons.mpr ⟨by decide, hafter.sublist (List.take_sublist _ _)⟩
  · exact hnil

theorem valid_withTail {base : Text} (h : Valid base) (i : Nat) : Valid (withTail base i) := by
  refine (h.sublist (List.take_sublist _ _)).append ?_
  intro c hc
  rcases List.mem_cons.mp hc with rfl | hc
  · decide
  · have hdigit : c.isDigit = true := Nat.isDigit_of_mem_toDigits (by decide) (by decide) hc
    simp [isValidChar, isAlphanumeric, isNumeric_of_isDigit hdigit]

theorem valid_firstFree {base ext t : Text} {existing : List Text} {i n : Nat} (h : Valid base)
    (ht : firstFree base ext existing i n = .ok t) : Valid t := by
  induction n generalizing i with
  | zero => simp [firstFree] at ht
  | succ n ih =>
    rw [firstFree] at ht
    split at ht
    · exact ih ht
    · rw [← Except.ok.inj ht]
      exact valid_withTail h i

theorem valid_uniqueBase {base ext t : Text} {existing : List Text} {lossy tooLong : Bool}
    (h : Valid base) (ht : uniqueBase base ext existing lossy tooLong = .ok t) : Valid t := by
  rw [uniqueBase] at ht
  split at ht
  · rwa [← Except.ok.inj ht]
  · exact valid_firstFree h ht

theorem ofName_eq_ok {name short : Text} {existing : List Text} (h : ofName name existing = .ok short) :
    ∃ stem, uniqueBase (base (sanitize name).1).1 (extension (sanitize name).1) existing
        (sanitize name).2 (base (sanitize name).1).2 = .ok stem ∧
      short = stem ++ extension (sanitize name).1 := by
  simp only [ofName] at h
  obtain ⟨stem, hstem, hshort⟩ := bind_eq_ok_iff.mp h
  exact ⟨stem, hstem, (Except.ok.inj hshort).symm⟩

theorem valid_ofName {name short : Text} {existing : List Text}
    (h : ofName name existing = .ok short) : Valid short := by
  have hclean := valid_sanitize name
  obtain ⟨stem, hstem, rfl⟩ := ofName_eq_ok h
  exact (valid_uniqueBase (valid_base hclean) hstem).append (valid_extension hclean)

theorem assign_cons_eq_ok {name : Text} {taken names : List Text} {pairs : List (Text × Text)}
    (h : assign taken (name :: names) = .ok pairs) :
    ∃ short others, ofName name taken = .ok short ∧ assign (taken ++ [short]) names = .ok others ∧
      pairs = (name, short) :: others := by
  rw [assign] at h
  obtain ⟨short, hshort, hbehind⟩ := bind_eq_ok_iff.mp h
  obtain ⟨others, hothers, hpairs⟩ := bind_eq_ok_iff.mp hbehind
  exact ⟨short, others, hshort, hothers, (Except.ok.inj hpairs).symm⟩

theorem valid_assign {taken names : List Text} {pairs : List (Text × Text)}
    (h : assign taken names = .ok pairs) : ∀ e ∈ pairs, Valid e.2 := by
  induction names generalizing taken pairs with
  | nil =>
    rw [← Except.ok.inj h]
    simp
  | cons name names ih =>
    obtain ⟨short, others, hshort, hothers, rfl⟩ := assign_cons_eq_ok h
    exact List.forall_mem_cons.mpr ⟨valid_ofName hshort, ih hothers⟩

end ShortName

namespace Disk

variable {d : Disk}

/-- The table is what reading the folder gives. -/
def UpToDate (d : Disk) : Prop := d.table = .ok d.names

instance (d : Disk) : Decidable d.UpToDate := inferInstanceAs (Decidable (_ = _))

/-- A table that comes from a list of entries gives short names to some of them, as if there were no others. -/
theorem tabulate_eq_ok {host : Host} {folder : Folder} {taken names : List Text} {pairs : List (Text × Text)}
    (h : tabulate host folder taken names = .ok pairs) :
    ShortName.assign taken (pairs.map (·.1)) = .ok pairs ∧ (pairs.map (·.1)).Sublist names := by
  induction names generalizing taken pairs with
  | nil =>
    obtain rfl := Except.ok.inj h
    exact ⟨rfl, .refl _⟩
  | cons name names ih =>
    rw [tabulate] at h
    obtain ⟨there, -, hrest⟩ := bind_eq_ok_iff.mp h
    cases there with
    | false =>
      obtain ⟨hassign, hsublist⟩ := ih hrest
      exact ⟨hassign, hsublist.cons name⟩
    | true =>
      obtain ⟨short, hshort, hrest⟩ := bind_eq_ok_iff.mp hrest
      obtain ⟨others, hothers, hpairs⟩ := bind_eq_ok_iff.mp hrest
      obtain rfl := Except.ok.inj hpairs
      obtain ⟨hassign, hsublist⟩ := ih hothers
      refine ⟨?_, hsublist.cons_cons name⟩
      simp [ShortName.assign, hshort, hassign, bind, Except.bind, pure, Except.pure]

theorem UpToDate.assign (h : d.UpToDate) : ShortName.assign [] d.fullNames = .ok d.names := by
  obtain ⟨entries, -, htable⟩ := bind_eq_ok_iff.mp h
  exact (tabulate_eq_ok htable).1

theorem UpToDate.sublist_listed (h : d.UpToDate) : d.fullNames.Sublist (d.host.listed d.folder) := by
  obtain ⟨entries, hlist, htable⟩ := bind_eq_ok_iff.mp h
  rw [Host.list] at hlist
  split at hlist
  · cases hlist
  · cases hlist
    exact (tabulate_eq_ok htable).2

/-- The listing is up to date, and `name` stands in it for a file with these bytes, which the host lets one see
and read. -/
structure Stores (d : Disk) (name : Text) (bytes : List UInt8) : Prop where
  listed : d.UpToDate
  file : ∃ host, d.hostName? name = some host ∧ Folder.IsName host ∧
    d.folder.find? host = some (.file bytes) ∧
    ∀ call ∈ [HostCall.look, .measure, .read], d.host.refuses d.folder call host = none

namespace Stores

variable {name : Text} {bytes : List UInt8}

theorem valid (h : Stores d name bytes) : ShortName.Valid name := by
  obtain ⟨host, hhost, -⟩ := h.file
  obtain ⟨e, hfound, -⟩ := Option.map_eq_some_iff.mp hhost
  have hname : e.2 = name := by simpa using List.find?_some hfound
  exact hname ▸ ShortName.valid_assign h.listed.assign e (List.mem_of_find?_eq_some hfound)

theorem path (h : Stores d name bytes) : d.existingPath name = .ok (d.path name) ∧
    d.host.size d.folder (d.path name) = .ok bytes.length ∧ d.host.read d.folder (d.path name) = .ok bytes := by
  obtain ⟨host, hhost, hname, hfile, hgrants⟩ := h.file
  have hpath : d.path name = host := by rw [Disk.path, hhost, Option.getD_some]
  obtain ⟨hthere, hshown⟩ :=
    Host.read_of_locate hname.null (d.host.locate_name d.folder hname) hfile hgrants
  rw [existingPath, hpath, hthere]
  exact ⟨rfl, hshown⟩

theorem size (h : Stores d name bytes) : d.size name = .ok bytes.length := by
  rw [Disk.size, h.path.1]
  exact h.path.2.1

theorem load (h : Stores d name bytes) : d.load name = .ok bytes := by
  rw [Disk.load, h.path.1]
  exact h.path.2.2

end Stores
end Disk
end BasicMachine
