import BasicMachine.Host
import BasicMachine.Proofs.TokenSpelling

/-! What a host answers. A name that an entry can have leads to that entry on every host. For all other paths,
and for what is refused, only this is known: a fault is one of the disk or comes from a null character, and a
file that was written is where the path leads. What a result needs of a host beyond that is said by a name. -/
namespace BasicMachine

theorem Text.splitAt_of_not_mem {sep : Char} {t : Text} (h : sep ∉ t) : splitAt sep t = [t] := by
  induction t with
  | nil => rfl
  | cons c t ih =>
    rw [List.mem_cons, not_or] at h
    rw [splitAt, if_neg (Ne.symm h.1), ih h.2]

namespace Folder

/-- A name that an entry of a folder can have. -/
structure IsName (name : Text) : Prop where
  nonempty : name ≠ []
  dot : name ≠ ['.']
  dots : name ≠ ['.', '.']
  slash : '/' ∉ name
  null : '\x00' ∉ name
  short : byteLength name ≤ 255

instance (name : Text) : Decidable (IsName name) :=
  decidable_of_iff (name ≠ [] ∧ name ≠ ['.'] ∧ name ≠ ['.', '.'] ∧ '/' ∉ name ∧ '\x00' ∉ name ∧
      byteLength name ≤ 255)
    ⟨fun ⟨h₁, h₂, h₃, h₄, h₅, h₆⟩ => ⟨h₁, h₂, h₃, h₄, h₅, h₆⟩,
      fun h => ⟨h.nonempty, h.dot, h.dots, h.slash, h.null, h.short⟩⟩

theorem entryAt?_put {f : Folder} {spot : Spot}
    (hfree : ∀ place, f.entryAt? spot ≠ some (.folder place)) (e : Entry) :
    (f.put spot e).entryAt? spot = some e := by
  cases spot with
  | whole => exact absurd rfl (hfree [])
  | above => exact absurd rfl (hfree [])
  | entry name => exact (find?_insert f name e name).trans (if_pos rfl)
  | elsewhere place => exact (lookup_setNamed place e f.elsewhere place).trans (if_pos rfl)

end Folder

namespace Host

open Folder (IsName)

variable {h : Host} {f f' : Folder} {call : HostCall} {path name : Text} {spot : Spot} {e : Fault}

theorem locate_name (h : Host) (f : Folder) (hname : IsName name) : h.locate f name = .ok (.entry name) := by
  have hsteps : Folder.steps name = [name] := by
    rw [Folder.steps, Text.splitAt_of_not_mem hname.slash]
    simp [hname.nonempty, hname.dot]
  have hhead : name.head? ≠ some '/' := fun hc => hname.slash (List.mem_of_mem_head? hc)
  have hshort : ¬Folder.byteLength name > 255 := Nat.not_lt.mpr hname.short
  simp [locate, hhead, hsteps, hshort, hname.dots]

/-- A path without a slash leads to the folder, to the one above or to an entry. -/
theorem locate_plain (hpath : '/' ∉ path) (hnull : '\x00' ∉ path) (hspot : h.locate f path = .ok spot) :
    spot = .whole ∨ spot = .above ∨ spot = .entry path ∧ IsName path := by
  have hsplit := Text.splitAt_of_not_mem hpath
  have hhead : path.head? ≠ some '/' := fun hc => hpath (List.mem_of_mem_head? hc)
  rw [locate, if_neg hhead] at hspot
  -- The empty path and `.` have no steps, and every other path is its own only step.
  by_cases hempty : path = []
  · have hsteps : Folder.steps path = [] := by rw [Folder.steps, hsplit, hempty]; rfl
    rw [hsteps] at hspot
    exact .inl (Except.ok.inj hspot).symm
  by_cases hdot : path = ['.']
  · have hsteps : Folder.steps path = [] := by rw [Folder.steps, hsplit, hdot]; rfl
    rw [hsteps] at hspot
    exact .inl (Except.ok.inj hspot).symm
  have hsteps : Folder.steps path = [path] := by
    rw [Folder.steps, hsplit]
    simp [hempty, hdot]
  simp only [hsteps] at hspot
  split at hspot
  · cases hspot
  next hlong =>
  split at hspot
  · exact .inr (.inl (Except.ok.inj hspot).symm)
  next hdots =>
  exact .inr (.inr ⟨(Except.ok.inj hspot).symm, hempty, hdot, hdots, hpath, hnull, Nat.not_lt.mp hlong⟩)

theorem mapError_eq_ok_iff {x : Except Refusal Spot} :
    x.mapError Refusal.fault = .ok spot ↔ x = .ok spot := by
  cases x <;> simp [Except.mapError]

/-- A path leads where it led after a file was written there. -/
theorem locate_put (hspot : h.locate f path = .ok spot)
    (hfree : ∀ place, f.entryAt? spot ≠ some (.folder place)) (bytes : List UInt8) :
    h.locate (f.put spot (.file bytes)) path = .ok spot := by
  have hsteady (hleads : (h.leads f path).mapError Refusal.fault = .ok spot) :
      (h.leads (f.put spot (.file bytes)) path).mapError Refusal.fault = .ok spot :=
    mapError_eq_ok_iff.mpr (h.steady f path spot bytes (mapError_eq_ok_iff.mp hleads) hfree)
  unfold locate at hspot ⊢
  split at hspot
  · next hhead =>
    rw [if_pos hhead]
    exact hsteady hspot
  · next hhead =>
    rw [if_neg hhead]
    split at hspot
    · exact hspot
    · exact hspot
    · exact hsteady hspot

theorem mapError_eq_error {x : Except Refusal Spot} (hx : x.mapError Refusal.fault = .error e) :
    e.isDiskFault = true := by
  cases x with
  | ok spot => cases hx
  | error r => exact Except.error.inj hx ▸ r.isDiskFault

theorem locate_eq_error (hspot : h.locate f path = .error e) : e.isDiskFault = true := by
  unfold locate at hspot
  split at hspot
  · exact mapError_eq_error hspot
  split at hspot
  · cases hspot
  · split at hspot
    · exact Except.error.inj hspot ▸ rfl
    · split at hspot <;> cases hspot
  · exact mapError_eq_error hspot

theorem reach_eq_ok_iff : h.reach f call path = .ok spot ↔
    '\x00' ∉ path ∧ h.refuses f call path = none ∧ h.locate f path = .ok spot := by
  unfold reach
  by_cases hnull : '\x00' ∈ path
  · simp [hnull]
  · cases hrefuses : h.refuses f call path <;> simp [hnull]

theorem reach_name (hname : IsName name) (hgranted : h.refuses f call name = none) :
    h.reach f call name = .ok (.entry name) :=
  reach_eq_ok_iff.mpr ⟨hname.null, hgranted, h.locate_name f hname⟩

theorem reach_plain (hpath : '/' ∉ path) (hspot : h.reach f call path = .ok spot) :
    spot = .whole ∨ spot = .above ∨ spot = .entry path ∧ IsName path := by
  obtain ⟨hnull, -, hlocate⟩ := reach_eq_ok_iff.mp hspot
  exact locate_plain hpath hnull hlocate

theorem reach_eq_error (hspot : h.reach f call path = .error e) :
    e.isDiskFault = true ∨ e = .nullInName ∧ '\x00' ∈ path := by
  unfold reach at hspot
  split at hspot
  · next hnull => exact .inr ⟨(Except.error.inj hspot).symm, by simpa using hnull⟩
  · split at hspot
    · next r _ => exact .inl (Except.error.inj hspot ▸ r.isDiskFault)
    · exact .inl (locate_eq_error hspot)

theorem lookup_eq_some_iff {found : Entry} : h.lookup f path = .ok (some found) ↔
    ∃ spot, h.reach f .look path = .ok spot ∧ f.entryAt? spot = some found := by
  unfold lookup
  cases hspot : h.reach f .look path with
  | ok spot => simp
  | error e => cases habsent : e.isAbsence <;> simp [habsent]

theorem lookup_eq_error (hlook : h.lookup f path = .error e) :
    e.isDiskFault = true ∧ e.isAbsence = false := by
  unfold lookup at hlook
  split at hlook
  · cases hlook
  next e' hspot =>
  split at hlook
  · cases hlook
  next hthere =>
  obtain rfl := Except.error.inj hlook
  have hthere' := Bool.eq_false_iff.mpr hthere
  rcases reach_eq_error hspot with hfault | ⟨rfl, -⟩
  · exact ⟨hfault, hthere'⟩
  · cases hthere'

/-- What was seen at a path is there for all that the host grants. -/
theorem reach_of_lookup {found : Entry} (hlook : h.lookup f path = .ok (some found))
    (hgranted : h.refuses f call path = none) :
    ∃ spot, h.reach f call path = .ok spot ∧ f.entryAt? spot = some found := by
  obtain ⟨spot, hspot, hfound⟩ := lookup_eq_some_iff.mp hlook
  obtain ⟨hnull, -, hlocate⟩ := reach_eq_ok_iff.mp hspot
  exact ⟨spot, reach_eq_ok_iff.mpr ⟨hnull, hgranted, hlocate⟩, hfound⟩

theorem reach_eq_error_of_lookup {found : Entry} (hlook : h.lookup f path = .ok (some found))
    (hspot : h.reach f call path = .error e) : ∃ r, h.refuses f call path = some r ∧ e = r.fault := by
  cases hrefuses : h.refuses f call path with
  | none =>
    obtain ⟨spot, hreach, -⟩ := reach_of_lookup hlook hrefuses
    rw [hspot] at hreach
    cases hreach
  | some r =>
    obtain ⟨spot, hseen, -⟩ := lookup_eq_some_iff.mp hlook
    obtain ⟨hnull, -⟩ := reach_eq_ok_iff.mp hseen
    refine ⟨r, rfl, ?_⟩
    simpa [reach, hnull, hrefuses, eq_comm] using hspot

theorem size_eq_error {found : Entry} (hlook : h.lookup f path = .ok (some found))
    (hsize : h.size f path = .error e) : ∃ r, h.refuses f .measure path = some r ∧ e = r.fault := by
  rcases bind_eq_error_iff.mp hsize with hspot | ⟨spot, hspot, hmeasured⟩
  · exact reach_eq_error_of_lookup hlook hspot
  obtain ⟨-, hgranted, -⟩ := reach_eq_ok_iff.mp hspot
  obtain ⟨spot', hspot', hfound⟩ := reach_of_lookup hlook hgranted
  rw [hspot] at hspot'
  cases hspot'
  rw [hfound] at hmeasured
  cases found <;> cases hmeasured

theorem read_eq_error {found : Entry} (hlook : h.lookup f path = .ok (some found))
    (hread : h.read f path = .error e) : e.isDiskFault = true := by
  rcases bind_eq_error_iff.mp hread with hspot | ⟨spot, -, hbytes⟩
  · obtain ⟨r, -, rfl⟩ := reach_eq_error_of_lookup hlook hspot
    exact r.isDiskFault
  · split at hbytes
    · cases hbytes
    · exact Except.error.inj hbytes ▸ rfl
    · exact Except.error.inj hbytes ▸ rfl

/-- A file is found, measured and read where the path leads, as far as the host grants that. -/
theorem read_of_locate {bytes : List UInt8} (hnull : '\x00' ∉ path) (hspot : h.locate f path = .ok spot)
    (hfile : f.entryAt? spot = some (.file bytes))
    (hgrants : ∀ call ∈ [HostCall.look, .measure, .read], h.refuses f call path = none) :
    h.exists? f path = .ok true ∧ h.size f path = .ok bytes.length ∧ h.read f path = .ok bytes := by
  have hreach {call} (hcall : call ∈ [HostCall.look, .measure, .read]) : h.reach f call path = .ok spot :=
    reach_eq_ok_iff.mpr ⟨hnull, hgrants call hcall, hspot⟩
  refine ⟨?_, ?_, ?_⟩
  · rw [exists?, lookup_eq_some_iff.mpr ⟨spot, hreach (by simp), hfile⟩]
    rfl
  · simp [size, hreach, hfile, bind, Except.bind, pure, Except.pure]
  · simp [read, hreach, hfile, bind, Except.bind, pure, Except.pure]

/-- A file can be written to where the path leads. -/
structure Opens (h : Host) (f : Folder) (path : Text) (spot : Spot) : Prop where
  reached : h.reach f .rewrite path = .ok spot
  free : ∀ place, f.entryAt? spot ≠ some (.folder place)

/-- What comes of writing. Bytes that are written before a write breaks off stay in the file. -/
inductive WriteOutcome (h : Host) (f : Folder) (path : Text) (bytes : List UInt8) :
    Except Fault Unit × Folder → Prop
  | refused {e : Fault} (fault : e.isDiskFault = true ∨ e = .nullInName) :
      WriteOutcome h f path bytes (.error e, f)
  | broken {spot : Spot} {n : Nat} {r : Refusal} (opened : h.Opens f path spot)
      (cut : h.cuts (f.put spot (.file [])) path bytes = some (n, r)) :
      WriteOutcome h f path bytes (.error r.fault, f.put spot (.file (bytes.take n)))
  | written {spot : Spot} (opened : h.Opens f path spot)
      (whole : h.cuts (f.put spot (.file [])) path bytes = none) :
      WriteOutcome h f path bytes (.ok (), f.put spot (.file bytes))

theorem run_write_of_opens (hopens : h.Opens f path spot) (bytes : List UInt8) :
    (h.write path bytes).run f = match h.cuts (f.put spot (.file [])) path bytes with
      | none => (.ok (), f.put spot (.file bytes))
      | some (n, r) => (.error r.fault, f.put spot (.file (bytes.take n))) := by
  simp only [write, Run.run_bind, Run.run_get, Run.run_ofExcept, hopens.reached]
  split
  · next place hfolder => exact absurd hfolder (hopens.free place)
  · cases h.cuts (f.put spot (.file [])) path bytes with
    | none => rfl
    | some cut => rfl

theorem writeOutcome (h : Host) (f : Folder) (path : Text) (bytes : List UInt8) :
    WriteOutcome h f path bytes ((h.write path bytes).run f) := by
  cases hspot : h.reach f .rewrite path with
  | error e =>
    have hrun : (h.write path bytes).run f = (.error e, f) := by
      simp only [write, Run.run_bind, Run.run_get, Run.run_ofExcept, hspot]
    rw [hrun]
    exact .refused ((reach_eq_error hspot).imp_right And.left)
  | ok spot =>
    by_cases hfree : ∀ place, f.entryAt? spot ≠ some (.folder place)
    · rw [run_write_of_opens ⟨hspot, hfree⟩]
      cases hcut : h.cuts (f.put spot (.file [])) path bytes with
      | none => exact .written ⟨hspot, hfree⟩ hcut
      | some cut => exact .broken ⟨hspot, hfree⟩ hcut
    · simp only [not_forall, not_not] at hfree
      obtain ⟨place, hfolder⟩ := hfree
      have hrun : (h.write path bytes).run f = (.error .isFolder, f) := by
        simp only [write, Run.run_bind, Run.run_get, Run.run_ofExcept, hspot, hfolder]
        rfl
      rw [hrun]
      exact .refused (.inl rfl)

theorem remove_eq_ok (hremove : h.remove f path = .ok f') : ∃ spot bytes,
    h.reach f .remove path = .ok spot ∧ f.entryAt? spot = some (.file bytes) ∧ f' = f.clear spot := by
  obtain ⟨spot, hspot, hcleared⟩ := bind_eq_ok_iff.mp hremove
  split at hcleared
  · next bytes hfile => exact ⟨spot, bytes, hspot, hfile, (Except.ok.inj hcleared).symm⟩
  · cases hcleared
  · cases hcleared

theorem remove_eq_error {found : Entry} (hlook : h.lookup f path = .ok (some found))
    (hremove : h.remove f path = .error e) : e.isDiskFault = true := by
  rcases bind_eq_error_iff.mp hremove with hspot | ⟨spot, -, hcleared⟩
  · obtain ⟨r, -, rfl⟩ := reach_eq_error_of_lookup hlook hspot
    exact r.isDiskFault
  · split at hcleared
    · cases hcleared
    · exact Except.error.inj hcleared ▸ rfl
    · exact Except.error.inj hcleared ▸ rfl

theorem mayReplace_eq_error {new old : Entry} (hreplace : h.mayReplace f new old = .error e) :
    e.isDiskFault = true := by
  unfold mayReplace at hreplace
  split at hreplace
  · cases hreplace
  · exact Except.error.inj hreplace ▸ rfl
  · exact Except.error.inj hreplace ▸ rfl
  · split at hreplace
    · cases hreplace
    · exact Except.error.inj hreplace ▸ rfl

/-- An entry stays where it is, or it moves to a name that is free or that it may take over. -/
theorem rename_eq_ok (hrename : h.rename f path name = .ok f') : ∃ spot moved,
    h.reach f (.move name) path = .ok spot ∧ spot ≠ .whole ∧ spot ≠ .above ∧
      f.entryAt? spot = some moved ∧ (spot = .entry name ∧ f' = f ∨
        spot ≠ .entry name ∧ (∀ old, f.find? name = some old → h.mayReplace f moved old = .ok ()) ∧
          f' = (f.clear spot).insert name moved) := by
  obtain ⟨spot, hspot, hmoved⟩ := bind_eq_ok_iff.mp hrename
  by_cases hwhole : spot = .whole
  · simp [hwhole, bind, Except.bind] at hmoved
  by_cases habove : spot = .above
  · simp [habove, bind, Except.bind] at hmoved
  rw [if_neg hwhole, if_neg habove] at hmoved
  cases hfind : f.entryAt? spot with
  | none => simp [hfind] at hmoved
  | some moved =>
    refine ⟨spot, moved, hspot, hwhole, habove, hfind, ?_⟩
    simp only [hfind, bind, Except.bind, pure, Except.pure] at hmoved
    split at hmoved
    · next hsame => exact .inl ⟨hsame, (Except.ok.inj hmoved).symm⟩
    next hother =>
    refine .inr ⟨hother, ?_⟩
    cases hold : f.find? name with
    | none =>
      simp only [hold] at hmoved
      exact ⟨by simp, (Except.ok.inj hmoved).symm⟩
    | some old =>
      simp only [hold] at hmoved
      cases hreplace : h.mayReplace f moved old with
      | error e => simp [hreplace] at hmoved
      | ok u =>
        simp only [hreplace] at hmoved
        refine ⟨?_, (Except.ok.inj hmoved).symm⟩
        rintro old' ⟨⟩
        exact hreplace

/-- The host has a reason when it does not rename an entry that is there. -/
theorem rename_eq_error {found : Entry} (hlook : h.lookup f path = .ok (some found))
    (hrename : h.rename f path name = .error e) : e.isDiskFault = true := by
  rcases bind_eq_error_iff.mp hrename with hspot | ⟨spot, -, hmoved⟩
  · obtain ⟨r, -, rfl⟩ := reach_eq_error_of_lookup hlook hspot
    exact r.isDiskFault
  simp only [bind, Except.bind, pure, Except.pure] at hmoved
  split at hmoved
  · exact Except.error.inj hmoved ▸ rfl
  split at hmoved
  · exact Except.error.inj hmoved ▸ rfl
  split at hmoved
  · exact Except.error.inj hmoved ▸ rfl
  next moved _ =>
  split at hmoved
  · cases hmoved
  split at hmoved
  · next old _ =>
    cases hreplace : h.mayReplace f moved old with
    | ok u => simp [hreplace] at hmoved
    | error e' =>
      simp only [hreplace, Except.error.injEq] at hmoved
      exact hmoved ▸ mayReplace_eq_error hreplace
  · cases hmoved

section Plain

variable (hpath : '/' ∉ path)
include hpath

theorem Opens.plain (hopens : h.Opens f path spot) : spot = .entry path ∧ IsName path := by
  rcases reach_plain hpath hopens.reached with rfl | rfl | hentry
  · exact absurd rfl (hopens.free [])
  · exact absurd rfl (hopens.free [])
  · exact hentry

theorem remove_plain (hremove : h.remove f path = .ok f') :
    (∃ bytes, f.find? path = some (.file bytes)) ∧ f' = f.erase path := by
  obtain ⟨spot, bytes, hspot, hfile, rfl⟩ := remove_eq_ok hremove
  rcases reach_plain hpath hspot with rfl | rfl | ⟨rfl, -⟩
  · cases hfile
  · cases hfile
  · exact ⟨⟨bytes, hfile⟩, rfl⟩

theorem rename_plain (hrename : h.rename f path name = .ok f') :
    ∃ moved, f.find? path = some moved ∧ (path = name ∧ f' = f ∨
      path ≠ name ∧ f' = (f.erase path).insert name moved) := by
  obtain ⟨spot, moved, hspot, hwhole, habove, hfind, hcases⟩ := rename_eq_ok hrename
  rcases reach_plain hpath hspot with rfl | rfl | ⟨rfl, -⟩
  · exact absurd rfl hwhole
  · exact absurd rfl habove
  refine ⟨moved, hfind, hcases.imp ?_ ?_⟩
  · rintro ⟨hsame, rfl⟩
    exact ⟨Spot.entry.inj hsame, rfl⟩
  · rintro ⟨hother, -, rfl⟩
    exact ⟨fun heq => hother (congrArg Spot.entry heq), rfl⟩

end Plain

section Name

variable (hname : IsName name)
include hname

theorem make_name (hgranted : h.refuses f .make name = none) (hfree : f.find? name = none) :
    h.make f name = .ok (f.insert name (.file [])) := by
  rw [make, reach_name hname hgranted]
  simp [Folder.entryAt?, hfree, Folder.put, bind, Except.bind, pure, Except.pure]

theorem remove_name {bytes : List UInt8} (hgranted : h.refuses f .remove name = none)
    (hfile : f.find? name = some (.file bytes)) : h.remove f name = .ok (f.erase name) := by
  rw [remove, reach_name hname hgranted]
  simp [Folder.entryAt?, hfile, Folder.clear, bind, Except.bind, pure, Except.pure]

theorem rename_name {newName : Text} {e : Entry} (hgranted : h.refuses f (.move newName) name = none)
    (hfound : f.find? name = some e) (hfree : f.find? newName = none) :
    h.rename f name newName = .ok ((f.erase name).insert newName e) := by
  have hother : name ≠ newName := by
    rintro rfl
    rw [hfound] at hfree
    cases hfree
  rw [rename, reach_name hname hgranted]
  simp [Folder.entryAt?, hfound, hfree, hother, Folder.clear, bind, Except.bind, pure, Except.pure]

end Name

/-- The folder can be listed, and what is in it can be looked at. -/
structure Searchable (h : Host) : Prop where
  lists : ∀ f, h.refuses f .list [] = none
  looks : ∀ f name, IsName name → h.refuses f .look name = none

namespace Searchable

theorem lookup (hh : h.Searchable) (f : Folder) (hname : IsName name) :
    h.lookup f name = .ok (f.find? name) := by
  rw [Host.lookup, reach_name hname (hh.looks f name hname)]
  rfl

theorem exists? (hh : h.Searchable) (f : Folder) (hname : IsName name) :
    h.exists? f name = .ok (f.find? name).isSome := by
  rw [Host.exists?, hh.lookup f hname]
  rfl

theorem isFile (hh : h.Searchable) (f : Folder) (hname : IsName name) :
    h.isFile f name = .ok (((f.find? name).map Entry.isFile).getD false) := by
  rw [Host.isFile, hh.lookup f hname]
  rfl

end Searchable

/-- Nothing is refused that is about a single name in the folder. -/
structure Willing (h : Host) : Prop where
  lists : ∀ f, h.refuses f .list [] = none
  grants : ∀ f call name, IsName name → h.refuses f call name = none
  completes : ∀ f name bytes, IsName name → h.cuts f name bytes = none

theorem Willing.searchable (hh : h.Willing) : h.Searchable :=
  ⟨hh.lists, fun f => hh.grants f .look⟩

/-- What was written at a path can be seen and read there. -/
def ReadsBack (h : Host) : Prop :=
  ∀ f path bytes f', (h.write path bytes).run f = (.ok (), f') →
    ∀ call ∈ [HostCall.look, .measure, .read], h.refuses f' call path = none

theorem willing_alone : alone.Willing := ⟨fun _ => rfl, fun _ _ _ _ => rfl, fun _ _ _ _ => rfl⟩

end Host
end BasicMachine
