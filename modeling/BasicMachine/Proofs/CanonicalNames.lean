import BasicMachine.Proofs.ShortNames
import Mathlib.Order.Bounds.Defs

/-! Which name a file gets. The names that come out are those with the shape of a short name, and these are
the texts that are their own short name. The base of a name stays as it is where it can. Otherwise it gets the
least tail that makes the name new, and there is one, since different numbers make different names. -/
namespace BasicMachine.ShortName

/-- A text has the shape of a short name just when it is its own short name. -/
theorem isShort_iff_ofName {t : Text} : IsShort t ↔ ofName t [] = .ok t := by
  constructor
  · intro h
    exact ofName_of_isShort h List.not_mem_nil
  · exact isShort_of_ofName

instance (t : Text) : Decidable (IsShort t) :=
  @decidable_of_iff _ _ isShort_iff_ofName.symm (decidableEqResult _ _)

example : ¬IsShort "notes.txt".toList ∧ ¬IsShort "NOTES.".toList ∧ ¬IsShort "A.B.C".toList := by decide +kernel

/-- Whatever the name of a file is, its short name has the shape of one. It is its own short name again, just
where it is not taken. -/
theorem ofName_isCanonical (name : Text) (existing : List Text) (short : Text)
    (h : ofName name existing = .ok short) :
    IsShort short ∧ ∀ others, ofName short others = .ok short ↔ short ∉ others := by
  have hshort := isShort_of_ofName h
  refine ⟨hshort, fun others => ?_⟩
  constructor
  · exact not_mem_of_ofName
  · exact ofName_of_isShort hshort

/-- A name with dots in front, a letter whose upper case is two letters, spaces, a character that is not valid,
too long a base, two extensions and too long a last one; and its first tail is taken. -/
theorem ofName_isCanonical_evil :
    ofName "..straße + notes.tar.gz9x".toList ["STRASS~1.GZ9".toList] = .ok "STRASS~2.GZ9".toList ∧
      IsShort "STRASS~2.GZ9".toList ∧
      ∀ others, ofName "STRASS~2.GZ9".toList others = .ok "STRASS~2.GZ9".toList ↔
        "STRASS~2.GZ9".toList ∉ others := by
  have h : ofName "..straße + notes.tar.gz9x".toList ["STRASS~1.GZ9".toList] =
      .ok "STRASS~2.GZ9".toList := by decide +kernel
  exact ⟨h, ofName_isCanonical _ _ _ h⟩

/-- The base can stay as it is: it is not empty, nothing of the name was lost, and the name is new. -/
structure Stays (base ext : Text) (existing : List Text) (lossy tooLong : Bool) : Prop where
  nonempty : base ≠ []
  lossless : lossy = false
  short : tooLong = false
  new : base ++ ext ∉ existing

/-- The numbers whose tails make a new name. -/
def freeTails (base ext : Text) (existing : List Text) : Set Nat :=
  {i | 1 ≤ i ∧ withTail base i ++ ext ∉ existing}

section Tails

variable {base ext t : Text} {existing : List Text} {lossy tooLong : Bool}

theorem uniqueBase_of_stays (h : Stays base ext existing lossy tooLong) :
    uniqueBase base ext existing lossy tooLong = .ok base := by
  rw [uniqueBase, if_pos]
  simp [h.nonempty, h.lossless, h.short, h.new]

theorem uniqueBase_of_not_stays (h : ¬Stays base ext existing lossy tooLong) :
    uniqueBase base ext existing lossy tooLong = firstFree base ext existing 1 999999 := by
  rw [uniqueBase, if_neg]
  intro hkeep
  simp only [Bool.and_eq_true, Bool.not_eq_true', List.contains_eq_mem, decide_eq_false_iff_not,
    List.isEmpty_eq_false_iff] at hkeep
  obtain ⟨⟨⟨hlossy, hlong⟩, hnew⟩, hne⟩ := hkeep
  exact h ⟨hne, hlossy, hlong, hnew⟩

/-- The search from `i` on finds the least number from `i` on whose tail makes a new name. -/
theorem isLeast_of_firstFree {i n : Nat} (h : firstFree base ext existing i n = .ok t) :
    ∃ k, t = withTail base k ∧ IsLeast {j | i ≤ j ∧ withTail base j ++ ext ∉ existing} k := by
  induction n generalizing i with
  | zero => simp [firstFree] at h
  | succ n ih =>
    rw [firstFree] at h
    split at h
    · next htaken =>
      obtain ⟨k, ht, ⟨hle, hfree⟩, hleast⟩ := ih h
      refine ⟨k, ht, ⟨by omega, hfree⟩, ?_⟩
      rintro j ⟨hj, hfree'⟩
      have hne : j ≠ i := by
        rintro rfl
        exact hfree' (by simpa using htaken)
      exact hleast ⟨by omega, hfree'⟩
    · next hfree =>
      refine ⟨i, (Except.ok.inj h).symm, ⟨le_rfl, by simpa using hfree⟩, ?_⟩
      rintro j ⟨hj, -⟩
      exact hj

end Tails

/-- Among fewer names than there are tails a base is always found, and its name is new. It is the base itself
if that can stay, and otherwise the base with the least tail that makes a new name; a base that ends in this
very tail comes out as it was. -/
theorem uniqueBase_isLeast (base ext : Text) (existing : List Text) (lossy tooLong : Bool)
    (hfew : existing.length < 999999) :
    ∃ t, uniqueBase base ext existing lossy tooLong = .ok t ∧ t ++ ext ∉ existing ∧
      (Stays base ext existing lossy tooLong ∧ t = base ∨
        ¬Stays base ext existing lossy tooLong ∧
          ∃ i, IsLeast (freeTails base ext existing) i ∧ t = withTail base i) := by
  by_cases hstays : Stays base ext existing lossy tooLong
  · exact ⟨base, uniqueBase_of_stays hstays, hstays.new, .inl ⟨hstays, rfl⟩⟩
  · obtain ⟨t, hfound⟩ := exists_firstFree base ext hfew 1
    obtain ⟨i, rfl, hleast⟩ := isLeast_of_firstFree hfound
    refine ⟨withTail base i, ?_, hleast.1.2, .inr ⟨hstays, i, hleast, rfl⟩⟩
    rw [uniqueBase_of_not_stays hstays, hfound]

/-- The names with the tails `~1` to `~9` are taken, and the tenth tail is longer than those before it. -/
theorem uniqueBase_isLeast_tenth :
    ((List.range' 1 9).map fun i => withTail "LONGNAME".toList i ++ ".TXT".toList).length < 999999 ∧
      ∃ t, uniqueBase "LONGNAME".toList ".TXT".toList
          ((List.range' 1 9).map fun i => withTail "LONGNAME".toList i ++ ".TXT".toList) false true = .ok t ∧
        t = "LONGN~10".toList ∧ ∃ i,
          IsLeast (freeTails "LONGNAME".toList ".TXT".toList
            ((List.range' 1 9).map fun i => withTail "LONGNAME".toList i ++ ".TXT".toList)) i ∧
          t = withTail "LONGNAME".toList i := by
  have hfew : ((List.range' 1 9).map fun i =>
      withTail "LONGNAME".toList i ++ ".TXT".toList).length < 999999 := by decide
  have htenth : uniqueBase "LONGNAME".toList ".TXT".toList
      ((List.range' 1 9).map fun i => withTail "LONGNAME".toList i ++ ".TXT".toList) false true =
        .ok "LONGN~10".toList := by decide +kernel
  obtain ⟨t, hfound, -, ⟨hstays, -⟩ | ⟨-, hleast⟩⟩ :=
    uniqueBase_isLeast "LONGNAME".toList ".TXT".toList _ false true hfew
  · exact absurd hstays.short (by decide)
  · refine ⟨hfew, t, hfound, ?_, hleast⟩
    rw [htenth] at hfound
    exact (Except.ok.inj hfound).symm

example : uniqueBase "ABCDEF~1".toList [] [] true false = .ok "ABCDEF~1".toList := by decide +kernel

end BasicMachine.ShortName
