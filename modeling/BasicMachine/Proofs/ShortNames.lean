import BasicMachine.Proofs.DiskListing

/-! How short names are made. A short name is new among the names that it is made against, and one can be
made as long as there are fewer such names than tails. The names that come out are those with the shape of
a short name, and each of them is its own short name: in particular nothing in it is changed by upper case,
since the upper case of a character consists of characters that are upper case themselves. -/
namespace BasicMachine

/-- The runs of all characters that upper case changes. -/
def changedRuns : List CaseRun :=
  ⟨97, 122, 1, -32⟩ :: upperRuns ++ upperExpansions.map fun e => ⟨e.1, e.1, 1, 0⟩

namespace CaseRun

/-- The upper case of the run `r` lies beside the run `s`, or between every second point of it. -/
def misses (r s : CaseRun) : Bool :=
  Nat.blt (r.last + r.shift).toNat s.first || Nat.blt s.last (r.first + r.shift).toNat ||
    ((r.step == 2 || r.first == r.last) && s.step == 2 &&
      ((r.first + r.shift).toNat + s.first) % 2 == 1)

theorem contains_of_misses {r s : CaseRun} (h : r.misses s = true) {n : Nat}
    (hfirst : 0 ≤ (r.first : Int) + r.shift) (hn : r.contains n = true) :
    s.contains (n + r.shift).toNat = false := by
  simp only [misses, Bool.or_eq_true, Bool.and_eq_true, beq_iff_eq, Nat.blt_eq] at h
  simp only [contains, Bool.and_eq_true, decide_eq_true_eq, beq_iff_eq] at hn
  rw [Bool.eq_false_iff]
  intro hs
  simp only [contains, Bool.and_eq_true, decide_eq_true_eq, beq_iff_eq] at hs
  rcases h with (h | h) | ⟨⟨hr, hstep⟩, hodd⟩
  · omega
  · omega
  · rw [hstep] at hs
    rcases hr with hr | hr
    · rw [hr] at hn
      omega
    · omega

end CaseRun

private theorem expansions_settled :
    (upperExpansions.all fun e => e.2.all fun n => changedRuns.all fun s => !s.contains n) = true := by
  decide +kernel

private theorem runs_settled : (upperRuns.all fun r => changedRuns.all fun s => r.misses s) = true := by
  decide +kernel

private theorem runs_nonneg : ∀ r ∈ upperRuns, 0 ≤ (r.first : Int) + r.shift := by decide +kernel

/-- A character outside the runs is its own upper case. -/
theorem upperChar_of_unchanged {c : Char} (h : ∀ s ∈ changedRuns, s.contains c.toNat = false) :
    upperChar c = [c] := by
  unfold upperChar
  split
  · have hlower := h ⟨97, 122, 1, -32⟩ List.mem_cons_self
    simp only [CaseRun.contains, Bool.eq_false_iff, ne_eq, Bool.and_eq_true, decide_eq_true_eq,
      beq_iff_eq, Nat.mod_one, and_true] at hlower
    rw [toUpper_of_not_lower (by omega)]
  · split
    · next cs hcs =>
      obtain ⟨before, after, htable, -⟩ := List.lookup_eq_some_iff.mp hcs
      have hmem : (⟨c.toNat, c.toNat, 1, 0⟩ : CaseRun) ∈ changedRuns := by
        apply List.mem_append_right
        exact List.mem_map.mpr ⟨(c.toNat, cs), by simp [htable], rfl⟩
      have hout := h _ hmem
      simp [CaseRun.contains] at hout
    · split
      · next r hr =>
        have hmem : r ∈ changedRuns :=
          List.mem_append_left _ (List.mem_cons_of_mem _ (List.mem_of_find?_eq_some hr))
        have hout := h r hmem
        rw [List.find?_some hr] at hout
        exact absurd hout (by simp)
      · rfl

/-- The same for a code point; one that is no character stands for the character zero. -/
theorem upperChar_ofNat_of_unchanged {n : Nat} (h : ∀ s ∈ changedRuns, s.contains n = false) :
    upperChar (Char.ofNat n) = [Char.ofNat n] := by
  unfold Char.ofNat
  split
  · exact upperChar_of_unchanged h
  · decide

theorem toNat_toUpper {c : Char} (h : c.toNat < 128) :
    c.toUpper.toNat < 128 ∧ (c.toUpper.toNat < 97 ∨ 122 < c.toUpper.toNat) := by
  unfold Char.toUpper
  split
  · next hlower =>
    simp only [UInt32.le_iff_toNat_le] at hlower
    simp only [← Char.toNat_val] at h ⊢
    simp at hlower ⊢
    omega
  · next hlower =>
    simp only [UInt32.le_iff_toNat_le] at hlower
    simp at hlower
    omega

/-- The upper case of a character consists of upper case characters. -/
theorem upperChar_of_mem {c d : Char} (h : d ∈ upperChar c) : upperChar d = [d] := by
  unfold upperChar at h
  split at h
  · next hascii =>
    obtain ⟨hupper, hsame⟩ := toNat_toUpper hascii
    rw [List.mem_singleton.mp h, upperChar_ascii hupper, toUpper_of_not_lower hsame]
  · next hascii =>
    split at h
    · next cs hcs =>
      obtain ⟨n, hn, rfl⟩ := List.mem_map.mp h
      obtain ⟨before, after, htable, -⟩ := List.lookup_eq_some_iff.mp hcs
      have hsettled := List.all_eq_true.mp expansions_settled (c.toNat, cs) (by simp [htable])
      have hout := List.all_eq_true.mp (List.all_eq_true.mp hsettled n hn)
      exact upperChar_ofNat_of_unchanged fun s hs => by simpa using hout s hs
    · next hlookup =>
      split at h
      · next r hr =>
        have hmem := List.mem_of_find?_eq_some hr
        have hin : r.contains c.toNat = true := by simpa using List.find?_some hr
        have hmisses := List.all_eq_true.mp (List.all_eq_true.mp runs_settled r hmem)
        rw [List.mem_singleton.mp h]
        apply upperChar_ofNat_of_unchanged
        intro s hs
        exact CaseRun.contains_of_misses (hmisses s hs) (runs_nonneg r hmem) hin
      · next hfind =>
        rw [List.mem_singleton.mp h]
        simp [upperChar, hascii, hlookup, hfind]

theorem upper_of_settled {t : Text} (h : ∀ c ∈ t, upperChar c = [c]) : upper t = t := by
  induction t with
  | nil => rfl
  | cons c t ih =>
    rw [List.forall_mem_cons] at h
    rw [upper_cons, h.1, ih h.2]
    rfl

namespace ShortName

/-- The number of a tail can be read off behind the last tilde. -/
theorem withTail_injective {base : Text} {i j : Nat} (h : withTail base i = withTail base j) :
    i = j := by
  have tail (k : Nat) :
      (withTail base k).reverse.takeWhile (· != '~') = (Text.ofNat k).reverse := by
    have hdigits : ∀ c ∈ (Text.ofNat k).reverse, (c != '~') = true := by
      intro c hc
      have hdigit : c.isDigit = true :=
        Nat.isDigit_of_mem_toDigits (by decide) (by decide) (List.mem_reverse.mp hc)
      rw [bne_iff_ne]
      rintro rfl
      exact absurd hdigit (by decide)
    simp [withTail, List.takeWhile_append_of_pos hdigits]
  have hdigits : Text.ofNat i = Text.ofNat j := by
    apply List.reverse_injective
    rw [← tail i, ← tail j, h]
  have hvalue := congrArg (Nat.ofDigitChars 10 · 0) hdigits
  simpa [Text.ofNat] using hvalue

section Unique

variable {base ext t : Text} {existing : List Text}

theorem firstFree_eq_ok {i n : Nat} (h : firstFree base ext existing i n = .ok t) :
    t ++ ext ∉ existing ∧ ∃ k, i ≤ k ∧ k < i + n ∧ t = withTail base k := by
  induction n generalizing i with
  | zero => simp [firstFree] at h
  | succ n ih =>
    rw [firstFree] at h
    split at h
    · obtain ⟨hfree, k, hfirst, hlast, ht⟩ := ih h
      exact ⟨hfree, k, by omega, by omega, ht⟩
    · next hfree =>
      rw [← Except.ok.inj h]
      exact ⟨by simpa using hfree, i, by omega, by omega, rfl⟩

theorem firstFree_eq_error {i n : Nat} {e : Fault} (h : firstFree base ext existing i n = .error e) :
    e = .noShortName ∧ ∀ k, i ≤ k → k < i + n → withTail base k ++ ext ∈ existing := by
  induction n generalizing i with
  | zero =>
    refine ⟨(Except.error.inj h).symm, ?_⟩
    intro k hfirst hlast
    omega
  | succ n ih =>
    rw [firstFree] at h
    split at h
    · next htaken =>
      refine ⟨(ih h).1, ?_⟩
      intro k hfirst hlast
      by_cases hk : k = i
      · rw [hk]
        simpa using htaken
      · exact (ih h).2 k (by omega) (by omega)
    · cases h

/-- Among more tails than there are names, one is free. -/
theorem exists_firstFree {n : Nat} (base ext : Text) (h : existing.length < n) (i : Nat) :
    ∃ t, firstFree base ext existing i n = .ok t := by
  cases hrun : firstFree base ext existing i n with
  | ok t => exact ⟨t, rfl⟩
  | error e =>
    obtain ⟨-, htaken⟩ := firstFree_eq_error hrun
    have hnodup : ((List.range' i n).map fun k => withTail base k ++ ext).Nodup := by
      refine List.Nodup.map_on ?_ List.nodup_range'
      intro k _ k' _ heq
      exact withTail_injective (List.append_cancel_right heq)
    have hsubset : ((List.range' i n).map fun k => withTail base k ++ ext) ⊆ existing := by
      intro name hname
      obtain ⟨k, hk, rfl⟩ := List.mem_map.mp hname
      obtain ⟨hfirst, hlast⟩ := List.mem_range'_1.mp hk
      exact htaken k hfirst hlast
    have hlength := (hnodup.subperm hsubset).length_le
    rw [List.length_map, List.length_range'] at hlength
    omega

theorem uniqueBase_eq_ok {lossy tooLong : Bool}
    (h : uniqueBase base ext existing lossy tooLong = .ok t) :
    t ++ ext ∉ existing ∧ (t = base ∧ base ≠ [] ∨ ∃ k ≤ 999999, t = withTail base k) := by
  rw [uniqueBase] at h
  split at h
  · next hkeep =>
    rw [← Except.ok.inj h]
    simp only [Bool.and_eq_true, Bool.not_eq_true', List.isEmpty_eq_false_iff] at hkeep
    exact ⟨by simpa using hkeep.1.2, .inl ⟨rfl, hkeep.2⟩⟩
  · obtain ⟨hfree, k, -, hlast, ht⟩ := firstFree_eq_ok h
    exact ⟨hfree, .inr ⟨k, by omega, ht⟩⟩

theorem exists_uniqueBase (base ext : Text) (h : existing.length < 999999) (lossy tooLong : Bool) :
    ∃ t, uniqueBase base ext existing lossy tooLong = .ok t := by
  unfold uniqueBase
  split
  · exact ⟨base, rfl⟩
  · exact exists_firstFree base ext h 1

end Unique

section Names

variable {name short : Text} {existing : List Text}

theorem ofName_eq_error {e : Fault} (h : ofName name existing = .error e) : e = .noShortName := by
  simp only [ofName] at h
  rcases bind_eq_error_iff.mp h with hstem | ⟨stem, -, hshort⟩
  · rw [uniqueBase] at hstem
    split at hstem
    · cases hstem
    · exact (firstFree_eq_error hstem).1
  · cases hshort

theorem not_mem_of_ofName (h : ofName name existing = .ok short) : short ∉ existing := by
  obtain ⟨stem, hstem, rfl⟩ := ofName_eq_ok h
  exact (uniqueBase_eq_ok hstem).1

/-- There is a short name for every name, as long as fewer names are taken than there are tails. -/
theorem exists_ofName (name : Text) (h : existing.length < 999999) :
    ∃ short, ofName name existing = .ok short := by
  obtain ⟨stem, hstem⟩ := exists_uniqueBase (base (sanitize name).1).1 (extension (sanitize name).1) h
    (sanitize name).2 (base (sanitize name).1).2
  refine ⟨stem ++ extension (sanitize name).1, ?_⟩
  simp [ofName, hstem, bind, Except.bind, pure, Except.pure]

end Names

/-- A character that a short name can have and that upper case leaves alone. -/
def Settled (c : Char) : Prop := isValidChar c = true ∧ upperChar c = [c]

theorem settled_of_isDigit {c : Char} (h : c.isDigit = true) : Settled c := by
  have hrange := isDigit_iff.mp h
  constructor
  · simp [isValidChar, isAlphanumeric, isNumeric_of_isDigit h]
  · rw [upperChar_ascii (by omega), toUpper_of_not_lower (by omega)]

theorem settled_sanitize (name : Text) : ∀ c ∈ (sanitize name).1, Settled c := by
  intro c hc
  obtain ⟨d, hd, rfl⟩ := List.mem_map.mp hc
  split
  · next hvalid =>
    have hupper : d ∈ upper name :=
      (List.filter_sublist.subset ((List.dropWhile_sublist _).subset hd))
    obtain ⟨b, -, hb⟩ := List.mem_flatMap.mp hupper
    exact ⟨hvalid, upperChar_of_mem hb⟩
  · exact ⟨by decide, by decide⟩

theorem mem_base {t : Text} {c : Char} (h : c ∈ (base t).1) : c ∈ t ∧ c ≠ '.' := by
  have hstem := List.mem_of_mem_take h
  exact ⟨(List.takeWhile_sublist _).subset hstem, by simpa using List.mem_takeWhile_imp hstem⟩

theorem mem_withTail {base : Text} {i : Nat} {c : Char} (h : c ∈ withTail base i) :
    c ∈ base ∨ c = '~' ∨ c.isDigit = true := by
  rcases List.mem_append.mp h with hbase | htail
  · exact .inl (List.mem_of_mem_take hbase)
  · rcases List.mem_cons.mp htail with rfl | hdigit
    · exact .inr (.inl rfl)
    · exact .inr (.inr (Nat.isDigit_of_mem_toDigits (by decide) (by decide) hdigit))

/-- An extension is empty, or a dot with one to three characters behind it. -/
def IsExtension (ext : Text) : Prop :=
  ext = [] ∨ ∃ after, ext = '.' :: after ∧ after ≠ [] ∧ after.length ≤ 3 ∧ '.' ∉ after

theorem isExtension_extension (t : Text) : IsExtension (extension t) := by
  unfold extension
  split
  · split
    · exact .inl rfl
    · next after hne =>
      refine .inr ⟨_, rfl, by simpa using hne, List.length_take_le _ _, ?_⟩
      intro hdot
      have hmem := List.mem_reverse.mp (List.mem_of_mem_take hdot)
      simpa using List.mem_takeWhile_imp hmem
  · exact .inl rfl

theorem mem_of_mem_extension {t : Text} {c : Char} (h : c ∈ extension t) : c ∈ t := by
  unfold extension at h
  split at h
  · next hdot =>
    split at h
    · cases h
    · rcases List.mem_cons.mp h with rfl | hafter
      · simpa using hdot
      · have hmem := List.mem_reverse.mp (List.mem_of_mem_take hafter)
        exact List.mem_reverse.mp ((List.takeWhile_sublist _).subset hmem)
  · cases h

/-- The parts of a short name. -/
structure Shape (stem ext : Text) : Prop where
  nonempty : stem ≠ []
  length : stem.length ≤ 8
  undotted : '.' ∉ stem
  extension : IsExtension ext
  settled : ∀ c ∈ stem ++ ext, Settled c

def IsShort (t : Text) : Prop := ∃ stem ext, t = stem ++ ext ∧ Shape stem ext

theorem length_withTail_le (base : Text) {k : Nat} (hk : k ≤ 999999) :
    (withTail base k).length ≤ 8 := by
  have hdigits : (Text.ofNat k).length ≤ 6 :=
    (Nat.length_toDigits_le_iff (by decide) (by decide)).mpr (by omega)
  simp only [withTail, List.length_append, List.length_take, List.length_cons]
  omega

theorem isShort_of_ofName {name short : Text} {existing : List Text}
    (h : ofName name existing = .ok short) : IsShort short := by
  obtain ⟨stem, hstem, rfl⟩ := ofName_eq_ok h
  have hclean := settled_sanitize name
  have hext : ∀ c ∈ extension (sanitize name).1, Settled c := fun c hc =>
    hclean c (mem_of_mem_extension hc)
  refine ⟨stem, _, rfl, ?_⟩
  rcases (uniqueBase_eq_ok hstem).2 with ⟨rfl, hne⟩ | ⟨k, hk, rfl⟩
  · exact {
      nonempty := hne
      length := List.length_take_le _ _
      undotted := fun hdot => (mem_base hdot).2 rfl
      extension := isExtension_extension _
      settled := List.forall_mem_append.mpr ⟨fun c hc => hclean c (mem_base hc).1, hext⟩ }
  · refine {
      nonempty := by simp [withTail]
      length := length_withTail_le _ hk
      undotted := ?_
      extension := isExtension_extension _
      settled := List.forall_mem_append.mpr ⟨fun c hc => ?_, hext⟩ }
    · intro hdot
      rcases mem_withTail hdot with hbase | htilde | hdigit
      · exact (mem_base hbase).2 rfl
      · exact absurd htilde (by decide)
      · exact absurd hdigit (by decide)
    · rcases mem_withTail hc with hbase | rfl | hdigit
      · exact hclean c (mem_base hbase).1
      · exact ⟨by decide, by decide⟩
      · exact settled_of_isDigit hdigit

namespace Shape

variable {stem ext : Text}

theorem head_ne_dot (h : Shape stem ext) : ∀ c ∈ (stem ++ ext).head?, c ≠ '.' := by
  intro c hc
  cases hstem : stem with
  | nil => exact absurd hstem h.nonempty
  | cons d rest =>
    rw [hstem] at hc
    rintro rfl
    apply h.undotted
    rw [hstem]
    simp at hc
    simp [hc]

/-- Nothing of a short name is dropped or replaced. -/
theorem sanitize_eq (h : Shape stem ext) : sanitize (stem ++ ext) = (stem ++ ext, false) := by
  have hupper : upper (stem ++ ext) = stem ++ ext := upper_of_settled fun c hc => (h.settled c hc).2
  have hspace : (stem ++ ext).filter (· != ' ') = stem ++ ext := by
    apply List.filter_eq_self.mpr
    intro c hc
    rw [bne_iff_ne]
    rintro rfl
    exact absurd (h.settled _ hc).1 (by decide)
  have hcanonical : canonical (stem ++ ext) = stem ++ ext := by
    rw [canonical, hupper, hspace]
    apply dropWhile_of_head
    intro c hc
    simpa using h.head_ne_dot c hc
  have hmap : (stem ++ ext).map (fun c => if isValidChar c then c else '_') = stem ++ ext := by
    rw [List.map_congr_left fun c hc => if_pos (h.settled c hc).1, List.map_id']
  have hany : ((stem ++ ext).any fun c => !isValidChar c) = false := by
    rw [List.any_eq_false]
    intro c hc
    simp [(h.settled c hc).1]
  simp only [sanitize, hcanonical, hmap, hany]

theorem base_eq (h : Shape stem ext) : base (stem ++ ext) = (stem, false) := by
  have hstem : ∀ c ∈ stem, (c != '.') = true := by
    intro c hc
    rw [bne_iff_ne]
    rintro rfl
    exact h.undotted hc
  have hext : ext.takeWhile (· != '.') = [] := by
    rcases h.extension with rfl | ⟨after, rfl, -⟩
    · rfl
    · simp
  have htake : (stem ++ ext).takeWhile (· != '.') = stem := by
    rw [List.takeWhile_append_of_pos hstem, hext, List.append_nil]
  have hlength := h.length
  simp only [base, htake, List.take_of_length_le hlength, Prod.mk.injEq, true_and,
    decide_eq_false_iff_not]
  omega

theorem extension_eq (h : Shape stem ext) : ShortName.extension (stem ++ ext) = ext := by
  rcases h.extension with rfl | ⟨after, rfl, hne, hlength, hdot⟩
  · simp [ShortName.extension, h.undotted]
  · have hafter : ∀ c ∈ after.reverse, (c != '.') = true := by
      intro c hc
      rw [bne_iff_ne]
      rintro rfl
      exact hdot (List.mem_reverse.mp hc)
    have hlast : ((stem ++ '.' :: after).reverse.takeWhile (· != '.')).reverse = after := by
      rw [List.reverse_append, List.reverse_cons, List.append_assoc,
        List.takeWhile_append_of_pos hafter]
      simp
    rw [ShortName.extension, if_pos (by simp), hlast]
    split
    · exact absurd rfl hne
    · rw [List.take_of_length_le hlength]

end Shape

theorem ofName_of_isShort {t : Text} {existing : List Text} (h : IsShort t) (hfree : t ∉ existing) :
    ofName t existing = .ok t := by
  obtain ⟨stem, ext, rfl, hshape⟩ := h
  have hunique : uniqueBase stem ext existing false false = .ok stem := by
    rw [uniqueBase, if_pos]
    simp [hfree, hshape.nonempty]
  simp only [ofName, hshape.sanitize_eq, hshape.base_eq, hshape.extension_eq, hunique]
  rfl

end ShortName

namespace Folder

theorem byteLength_le (t : Text) : byteLength t ≤ 4 * t.length := by
  have hfold (n : Nat) : t.foldl (fun n c => n + c.utf8Size) n ≤ n + 4 * t.length := by
    induction t generalizing n with
    | nil => simp
    | cons c t ih =>
      have hrest := ih (n + c.utf8Size)
      have hchar := Char.utf8Size_le_four c
      rw [List.foldl_cons, List.length_cons]
      omega
  have hall := hfold 0
  rwa [Nat.zero_add] at hall

/-- A file can have a short name as its name. -/
theorem isName_of_isShort {t : Text} (h : ShortName.IsShort t) : IsName t := by
  obtain ⟨stem, ext, rfl, hshape⟩ := h
  have hhead := hshape.head_ne_dot
  have hvalid (c : Char) (hc : ShortName.isValidChar c = false) : c ∉ stem ++ ext := by
    intro hmem
    rw [(hshape.settled c hmem).1] at hc
    exact absurd hc (by simp)
  have hextension : ext.length ≤ 4 := by
    rcases hshape.extension with rfl | ⟨after, rfl, -, hlength, -⟩
    · simp
    · rw [List.length_cons]
      omega
  have hlength := hshape.length
  have hbytes := byteLength_le (stem ++ ext)
  rw [List.length_append] at hbytes
  exact {
    nonempty := by simp [hshape.nonempty]
    dot := fun heq => hhead '.' (by simp [heq]) rfl
    dots := fun heq => hhead '.' (by simp [heq]) rfl
    slash := hvalid '/' (by decide)
    null := hvalid '\x00' (by decide)
    short := by omega }

end Folder
end BasicMachine
