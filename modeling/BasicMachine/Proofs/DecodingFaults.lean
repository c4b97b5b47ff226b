import BasicMachine.Proofs.SymbolLoss

/-! Why a line is not read. A line with an open quote or a long character literal is not split, and of a line
that is split the first part that is no token says what is wrong. Every such fault is that of a malformed line,
but for one: a numeric character that is no decimal digit, in the place of the digit of a string variable,
is asked for its value all the same. -/
namespace BasicMachine

/-- The faults of a malformed line. -/
def Fault.isDecoding : Fault → Bool
  | longCharacter | unmatchedQuote | malformed _ _ => true
  | _ => false

namespace Splitter

theorem step_eq_error {s : Splitter} {c : Char} {e : Fault} (h : s.step c = .error e) :
    e = .longCharacter := by
  unfold step at h
  repeat' split at h
  all_goals cases h
  rfl

theorem feed_eq_error {s : Splitter} {t : Text} {e : Fault} (h : feed s t = .error e) :
    e = .longCharacter := by
  induction t generalizing s with
  | nil => cases h
  | cons c t ih =>
    cases hc : s.step c with
    | error e' =>
      simp only [feed, hc, Except.error.injEq] at h
      exact h ▸ step_eq_error hc
    | ok s' =>
      rw [feed_cons hc] at h
      exact ih h

theorem Step.parts_ne_nil {s s' : Splitter} {c : Char} (h : Step s c s') (hs : ∀ p ∈ s.parts, p ≠ []) :
    ∀ p ∈ s'.parts, p ≠ [] := by
  cases h with
  | space plain ne apart char code => simpa [flush, or_imp, forall_and, ne] using hs
  | symbol plain ne apart char other => simpa [flush, or_imp, forall_and, ne] using hs
  | _ => simpa [add, flush, or_imp, forall_and] using hs

end Splitter

theorem splitLine_eq_error {line : Text} {e : Fault} (h : splitLine line = .error e) :
    e.isDecoding = true := by
  rcases bind_eq_error_iff.mp h with hfeed | ⟨s, -, hfinish⟩
  · rw [Splitter.feed_eq_error hfeed]
    rfl
  · unfold Splitter.finish at hfinish
    split at hfinish
    · cases hfinish
      rfl
    · cases hfinish

theorem splitLine_ne_nil {line : Text} {parts : List Text} (h : splitLine line = .ok parts) :
    ∀ p ∈ parts, p ≠ [] := by
  obtain ⟨s, hfeed, hfinish⟩ := Token.splitLine_eq_ok h
  have hparts : ∀ p ∈ s.parts, p ≠ [] :=
    Splitter.feed_keeps (P := fun s => ∀ p ∈ s.parts, p ≠ []) (fun _ _ _ hstep => hstep.parts_ne_nil) hfeed
      (by simp)
  unfold Splitter.finish at hfinish
  split at hfinish
  · cases hfinish
  cases hfinish
  split
  · exact hparts
  · next hword => simpa [or_imp, forall_and] using And.intro hparts hword

namespace Token

/-- A numeric character that is no decimal digit, such as a superscript or a fraction. -/
def isOddNumeral (c : Char) : Bool := BasicMachine.isNumeric c && (digitValue? c).isNone

theorem isVariableDigit_eq_error_iff {c : Char} {e : Fault} :
    isVariableDigit c = .error e ↔ isOddNumeral c = true ∧ e = .notADigit c := by
  unfold isVariableDigit isOddNumeral
  cases BasicMachine.isNumeric c with
  | false => simp
  | true => cases digitValue? c <;> simp [eq_comm]

/-- The part is a string variable, or a reference to one, that has an odd numeral for its digit. -/
inductive OddlyNumbered : Text → Char → Prop
  | stringVar (c : Char) (odd : isOddNumeral c = true) : OddlyNumbered ['$', c] c
  | stringRef (t : Text) (c : Char) (tight : ('&' :: t).filter (· != ' ') = ['&', '$', c])
    (odd : isOddNumeral c = true) : OddlyNumbered ('&' :: t) c

private theorem of_digit_error {c : Char} {found : Token} {form : TokenForm} {part : Text} {e : Fault}
    (h : (do if ← isVariableDigit c then pure found else throw (.malformed form part) : Except Fault Token) =
      .error e) : e.isDecoding = true ∨ isOddNumeral c = true ∧ e = .notADigit c := by
  rcases bind_eq_error_iff.mp h with hdigit | ⟨b, -, hfound⟩
  · exact .inr (isVariableDigit_eq_error_iff.mp hdigit)
  · cases b with
    | false =>
      cases hfound
      exact .inl rfl
    | true => cases hfound

theorem asStringVar_eq_error {part : Text} {e : Fault} (h : asStringVar part = .error e) :
    e.isDecoding = true ∨ ∃ c, OddlyNumbered part c ∧ e = .notADigit c := by
  unfold asStringVar at h
  split at h
  · next c => exact (of_digit_error h).imp_right fun ⟨hodd, he⟩ => ⟨c, .stringVar c hodd, he⟩
  · cases h
    exact .inl rfl

theorem asStringRef_eq_error {t : Text} {e : Fault} (h : asStringRef ('&' :: t) = .error e) :
    e.isDecoding = true ∨ ∃ c, OddlyNumbered ('&' :: t) c ∧ e = .notADigit c := by
  unfold asStringRef at h
  dsimp only at h
  split at h
  · next c htight =>
    exact (of_digit_error h).imp_right fun ⟨hodd, he⟩ => ⟨c, .stringRef t c htight hodd, he⟩
  · cases h
    exact .inl rfl

theorem decodeLettered_eq_error {c : Char} {t : Text} {e : Fault} (hc : isLetter c = true)
    (h : decodeLettered (c :: t) = .error e) : e.isDecoding = true := by
  unfold decodeLettered at h
  split at h
  · next hlength =>
    obtain rfl : t = [] := by simpa using hlength
    simp [asNumericVar, hc] at h
  split at h
  · cases h
  split at h
  · cases h
  unfold asWord at h
  split at h
  · cases h
  · cases h
    rfl

/-- A part that is no token is malformed or oddly numbered. -/
theorem decode_eq_error {part : Text} {e : Fault} (hne : part ≠ []) (h : decode part = .error e) :
    e.isDecoding = true ∨ ∃ c, OddlyNumbered part c ∧ e = .notADigit c := by
  cases part with
  | nil => exact absurd rfl hne
  | cons c t =>
    simp only [decode] at h
    split at h
    · exact asStringVar_eq_error h
    split at h
    · unfold asNumber at h
      split at h
      · cases h
      · cases h
        exact .inl rfl
    split at h
    · unfold asQuote at h
      split at h
      · cases h
      · cases h
        exact .inl rfl
    split at h
    · unfold asChar at h
      split at h
      · cases h
      · cases h
        exact .inl rfl
    split at h
    · next hletter => exact .inl (decodeLettered_eq_error hletter h)
    split at h
    · next hc =>
      subst hc
      exact asStringRef_eq_error h
    · cases h

theorem OddlyNumbered.decode {part : Text} {c : Char} (h : OddlyNumbered part c) :
    decode part = .error (.notADigit c) := by
  cases h with
  | stringVar c odd =>
    change asStringVar ['$', c] = _
    rw [asStringVar, isVariableDigit_eq_error_iff.mpr ⟨odd, rfl⟩]
    rfl
  | stringRef t c tight odd =>
    change asStringRef ('&' :: t) = _
    unfold asStringRef
    dsimp only
    rw [tight]
    simp only [isVariableDigit_eq_error_iff.mpr ⟨odd, rfl⟩]
    rfl

/-- The parts fail with the fault of the first of them that is no token. -/
theorem decodeAll_eq_error_iff {parts : List Text} {e : Fault} :
    decodeAll parts = .error e ↔ ∃ before part after, parts = before ++ part :: after ∧
      (∀ p ∈ before, ∃ token, decode p = .ok token) ∧ decode part = .error e := by
  induction parts with
  | nil => simp [decodeAll]
  | cons part parts ih =>
    cases hpart : decode part with
    | error e' =>
      simp only [decodeAll, hpart, bind, Except.bind, Except.error.injEq]
      constructor
      · rintro rfl
        exact ⟨[], part, parts, rfl, by simp, hpart⟩
      · rintro ⟨before, other, after, hparts, hbefore, hother⟩
        cases before with
        | nil =>
          cases hparts
          exact Except.error.inj (hpart.symm.trans hother)
        | cons p before =>
          cases hparts
          obtain ⟨token, htoken⟩ := hbefore part (by simp)
          simp [hpart] at htoken
    | ok token =>
      have hrest : decodeAll (part :: parts) = .error e ↔ decodeAll parts = .error e := by
        rw [decodeAll, hpart]
        cases decodeAll parts <;> simp [bind, Except.bind, pure, Except.pure]
      rw [hrest, ih]
      constructor
      · rintro ⟨before, other, after, rfl, hbefore, hother⟩
        exact ⟨part :: before, other, after, rfl, by simpa [hpart] using hbefore, hother⟩
      · rintro ⟨before, other, after, hparts, hbefore, hother⟩
        cases before with
        | nil =>
          cases hparts
          simp [hpart] at hother
        | cons p before =>
          cases hparts
          exact ⟨before, other, after, rfl, fun q hq => hbefore q (by simp [hq]), hother⟩

theorem parse_eq_error_iff {line : Text} {e : Fault} :
    parse line = .error e ↔ splitLine line = .error e ∨
      ∃ parts, splitLine line = .ok parts ∧ decodeAll parts = .error e := by
  constructor
  · intro h
    refine (bind_eq_error_iff.mp h).imp_right ?_
    rintro ⟨parts, hsplit, hparts⟩
    rcases bind_eq_error_iff.mp hparts with hdecode | ⟨found, -, hfound⟩
    · exact ⟨parts, hsplit, hdecode⟩
    · split at hfound <;> cases hfound
  · rintro (hsplit | ⟨parts, hsplit, hdecode⟩)
    · exact bind_eq_error_iff.mpr (.inl hsplit)
    · exact bind_eq_error_iff.mpr (.inr ⟨parts, hsplit, bind_eq_error_iff.mpr (.inl hdecode)⟩)

/-- The first part of the line that is no token is oddly numbered. -/
def MeetsOddNumeral (line : Text) (c : Char) : Prop :=
  ∃ before part after, splitLine line = .ok (before ++ part :: after) ∧
    (∀ p ∈ before, ∃ token, decode p = .ok token) ∧ OddlyNumbered part c

theorem parse_eq_notADigit_iff (line : Text) (c : Char) :
    parse line = .error (.notADigit c) ↔ MeetsOddNumeral line c := by
  rw [parse_eq_error_iff]
  constructor
  · rintro (hsplit | ⟨parts, hsplit, hdecode⟩)
    · cases splitLine_eq_error hsplit
    · obtain ⟨before, part, after, rfl, hbefore, hpart⟩ := decodeAll_eq_error_iff.mp hdecode
      refine ⟨before, part, after, hsplit, hbefore, ?_⟩
      rcases decode_eq_error (splitLine_ne_nil hsplit part (by simp)) hpart with hform | ⟨d, hodd, hd⟩
      · cases hform
      · cases hd
        exact hodd
  · rintro ⟨before, part, after, hsplit, hbefore, hodd⟩
    exact .inr ⟨_, hsplit, decodeAll_eq_error_iff.mpr ⟨before, part, after, rfl, hbefore, hodd.decode⟩⟩

/-- A line that is not read is malformed or has an odd numeral. -/
theorem parse_eq_error {line : Text} {e : Fault} (h : parse line = .error e) :
    e.isDecoding = true ∨ ∃ c, e = .notADigit c := by
  rcases parse_eq_error_iff.mp h with hsplit | ⟨parts, hsplit, hdecode⟩
  · exact .inl (splitLine_eq_error hsplit)
  · obtain ⟨before, part, after, rfl, -, hpart⟩ := decodeAll_eq_error_iff.mp hdecode
    rcases decode_eq_error (splitLine_ne_nil hsplit part (by simp)) hpart with hform | ⟨c, -, he⟩
    · exact .inl hform
    · exact .inr ⟨c, he⟩

/-- Every line is read or fails as a malformed line, exactly unless the first of its parts that is no token is
a string variable, or a reference to one, with an odd numeral for its digit. The fault is then that of the
numeral. -/
theorem reads_or_malformed_iff (line : Text) :
    ((∃ tokens, parse line = .ok tokens) ∨ (∃ e, parse line = .error e ∧ e.isDecoding = true) ↔
        ∀ c, ¬MeetsOddNumeral line c) ∧
      ∀ c, parse line = .error (.notADigit c) ↔ MeetsOddNumeral line c := by
  refine ⟨?_, parse_eq_notADigit_iff line⟩
  constructor
  · rintro hread c hmeets
    rw [← parse_eq_notADigit_iff] at hmeets
    rcases hread with ⟨tokens, htokens⟩ | ⟨e, he, hform⟩
    · simp [hmeets] at htokens
    · cases hmeets.symm.trans he
      cases hform
  · intro hnone
    cases hparse : parse line with
    | ok tokens => exact .inl ⟨tokens, rfl⟩
    | error e =>
      rcases parse_eq_error hparse with hform | ⟨c, rfl⟩
      · exact .inr ⟨e, rfl, hform⟩
      · exact absurd ((parse_eq_notADigit_iff line c).mp hparse) (hnone c)

/-- The superscript in `$²` is asked for its value. -/
theorem superscript_not_malformed :
    parse ['$', '²'] = .error (.notADigit '²') ∧
      ¬((∃ tokens, parse ['$', '²'] = .ok tokens) ∨
        ∃ e, parse ['$', '²'] = .error e ∧ e.isDecoding = true) := by
  have hparse : parse ['$', '²'] = .error (.notADigit '²') := by decide +kernel
  refine ⟨hparse, ?_⟩
  rintro (⟨tokens, htokens⟩ | ⟨e, he, hform⟩)
  · simp [hparse] at htokens
  · cases hparse.symm.trans he
    cases hform

end Token
end BasicMachine
