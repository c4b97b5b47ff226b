import BasicMachine.Proofs.OutsideVariables
import BasicMachine.Proofs.SymbolLoss

/-! Reading the tokens of accepted lines as arguments. A token counts as numeric or as a string by its kind,
and is then read by another routine. The two agree on every token that a line can have, but for two:
a letter outside the alphabet is taken for a variable, and a character literal may hold a character
that has no byte. -/
namespace BasicMachine

theorem exists_of_inRanges {ranges : List (Nat × Nat)} {n : Nat} (h : inRanges ranges n = true) :
    ∃ r ∈ ranges, r.1 ≤ n ∧ n ≤ r.2 := by
  induction ranges with
  | nil => cases h
  | cons r ranges ih =>
    simp only [inRanges] at h
    split at h
    · cases h
    next hfirst =>
    split at h
    · next hlast => exact ⟨r, by simp, Nat.not_lt.mp hfirst, hlast⟩
    · obtain ⟨s, hs, hin⟩ := ih h
      exact ⟨s, by simp [hs], hin⟩

theorem exists_zero_of_digitValue? {c : Char} {d : Nat} (h : digitValue? c = some d) :
    ∃ z ∈ 48 :: digitZeros, z ≤ c.toNat ∧ c.toNat ≤ z + 9 := by
  unfold digitValue? at h
  split at h
  · split at h
    · next hdigit => exact ⟨48, by simp, isDigit_iff.mp hdigit⟩
    · cases h
  · obtain ⟨z, hz, -⟩ := Option.map_eq_some_iff.mp h
    have hin := List.find?_some hz
    simp only [Bool.and_eq_true, decide_eq_true_eq] at hin
    exact ⟨z, List.mem_cons_of_mem _ (List.mem_of_find?_eq_some hz), by omega⟩

private theorem blanks_apart_from_digits :
    ∀ r ∈ blankRanges, ∀ z ∈ 48 :: digitZeros, r.2 < z ∨ z + 9 < r.1 := by decide +kernel

theorem isBlank_of_digitValue? {c : Char} {d : Nat} (h : digitValue? c = some d) :
    isBlank c = false := by
  rw [Bool.eq_false_iff]
  intro hblank
  obtain ⟨r, hr, hrange⟩ := exists_of_inRanges hblank
  obtain ⟨z, hz, hdigit⟩ := exists_zero_of_digitValue? h
  have := blanks_apart_from_digits r hr z hz
  omega

theorem Text.readInteger?_of_digitValue? {c : Char} {d : Nat} (h : digitValue? c = some d) :
    readInteger? [c] = some (d : Int) := by
  have hblank : isNumberBlank c = false := by
    simp [isNumberBlank, isBlank_of_digitValue? h]
  have hread : readNatural? [c] = some d := by
    simp [readNatural?, h, readDigits?, digitLimit]
  unfold readInteger?
  rw [trimBoth_of_ends (by simp [hblank]) (by simp [hblank])]
  split
  · next heq =>
    obtain ⟨rfl, -⟩ := List.cons.inj heq
    cases h
  · next heq =>
    obtain ⟨rfl, -⟩ := List.cons.inj heq
    cases h
  · simp [hread]

/-- The letters with one of `A` to `Z` as their upper case: those of the alphabet, the dotless `ı` and the
long `ſ`. -/
def namesVariable (c : Char) : Bool := c.isAlpha || c == 'ı' || c == 'ſ'

private theorem expansions_longer : ∀ e ∈ upperExpansions, e.2.length ≠ 1 := by decide +kernel

private theorem runs_beyond_capitals : ∀ r ∈ upperRuns,
    90 < r.first + r.shift ∨ r.first = r.last ∧ (r.first = 'ı'.toNat ∨ r.first = 'ſ'.toNat) := by
  decide +kernel

theorem isUpper_toUpper {c : Char} (h : c.isAlpha = true) : c.toUpper.isUpper = true := by
  rw [isUpper_iff]
  have hc := isAlpha_iff.mp h
  unfold Char.toUpper
  split
  · next hlower =>
    simp only [UInt32.le_iff_toNat_le] at hlower
    simp only [← Char.toNat_val] at hc ⊢
    simp at hlower ⊢
    omega
  · next hlower =>
    simp only [UInt32.le_iff_toNat_le] at hlower
    simp at hlower
    omega

theorem namesVariable_of_upperChar {c d : Char} (hd : d.isUpper = true) (h : upperChar c = [d]) :
    namesVariable c = true := by
  have hcapital := isUpper_iff.mp hd
  unfold upperChar at h
  split at h
  · obtain rfl := List.singleton_inj.mp h
    simp [namesVariable, isAlpha_of_toUpper hd]
  next hascii =>
  split at h
  -- An expansion has more than one character, so it is no single capital.
  · next cs hcs =>
    obtain ⟨before, after, htable, -⟩ := List.lookup_eq_some_iff.mp hcs
    have hlong := expansions_longer (c.toNat, cs) (by simp [htable])
    have hlength := congrArg List.length h
    exact absurd (by simpa using hlength) hlong
  split at h
  · next r hr =>
    have hin := List.find?_some hr
    have hvalue := toNat_of_ofNat_eq (List.singleton_inj.mp h) (by omega)
    simp only [CaseRun.contains, Bool.and_eq_true, decide_eq_true_eq] at hin
    rcases runs_beyond_capitals r (List.mem_of_find?_eq_some hr) with hbeyond | ⟨hsingle, hcode⟩
    · omega
    · have hc : c = 'ı' ∨ c = 'ſ' :=
        hcode.imp (fun hi => Char.toNat_inj.mp (by omega)) fun hs => Char.toNat_inj.mp (by omega)
      simpa [namesVariable, or_assoc] using Or.inr hc
  · obtain rfl := List.singleton_inj.mp h
    omega

namespace Machine

theorem exists_numericName_of_isUpper {c : Char} (h : c.isUpper = true) : ∃ i, [c] = numericName i := by
  have hcapital := isUpper_iff.mp h
  have hcode : 65 + (c.toNat - 65) = c.toNat := by omega
  refine ⟨⟨c.toNat - 65, by omega⟩, ?_⟩
  rw [numericName, hcode, Char.ofNat_toNat]

theorem exists_numericName {name : Text} {a : Int} (h : numericAddress name = .ok a) :
    ∃ i, name = numericName i := by
  unfold numericAddress at h
  split at h
  · next c =>
    simp only [numericStart] at h
    split at h
    · cases h
    · next hrange =>
      have hA : 'A'.toNat = 65 := rfl
      apply exists_numericName_of_isUpper
      rw [isUpper_iff]
      omega
  · cases h

theorem numeric_eq_ok_iff {m : Machine} (hm : 17664 ≤ m.memory.size) (name : Text) :
    (∃ n, m.numeric name = .ok n) ↔ ∃ i, name = numericName i := by
  constructor
  · rintro ⟨n, hn⟩
    obtain ⟨a, ha, -⟩ := bind_eq_ok_iff.mp hn
    exact exists_numericName ha
  · rintro ⟨i, rfl⟩
    exact ⟨_, numeric_numericName hm i⟩

theorem upper_eq_numericName_iff (c : Char) :
    (∃ i, upper [c] = numericName i) ↔ namesVariable c = true := by
  rw [upper_cons, upper_nil, List.append_nil]
  constructor
  · rintro ⟨i, hi⟩
    have hcapital : ∀ j : Fin 26, (Char.ofNat (65 + j)).isUpper = true := by decide
    exact namesVariable_of_upperChar (hcapital i) hi
  · intro h
    simp only [namesVariable, Bool.or_eq_true, beq_iff_eq] at h
    rcases h with (halpha | rfl) | rfl
    · have hascii : c.toNat < 128 := by
        have := isAlpha_iff.mp halpha
        omega
      rw [upperChar_ascii hascii]
      exact exists_numericName_of_isUpper (isUpper_toUpper halpha)
    · exact ⟨8, by decide +kernel⟩
    · exact ⟨18, by decide +kernel⟩

end Machine

namespace Token

theorem exists_stringAddress {c : Char} (h : isVariableDigit c = .ok true) :
    ∃ a, stringAddress ['$', c] = .ok a := by
  unfold isVariableDigit at h
  split at h
  · split at h
    · next d hd =>
      have hrange : ¬((d : Int) < 1 ∨ 8 < (d : Int)) := by
        simp only [Except.ok.injEq, Bool.and_eq_true, decide_eq_true_eq] at h
        omega
      simp only [stringAddress, Text.readInteger?_of_digitValue? hd, if_neg hrange]
      exact ⟨_, rfl⟩
    · cases h
  · cases h

theorem exists_string {c : Char} (h : isVariableDigit c = .ok true) (m : Machine) :
    ∃ t, m.string ['$', c] = .ok t := by
  obtain ⟨a, ha⟩ := exists_stringAddress h
  simp only [Machine.string, ha, bind, Except.bind, Memory.readString]
  split
  · next hrange => omega
  · split <;> exact ⟨_, rfl⟩

theorem charCode_eq_ok_iff (c : Char) :
    (∃ n, charCode ['\'', c, '\''] = .ok n) ↔ (CodePage.encodeChar? c).isNone = false := by
  cases hc : CodePage.encodeChar? c <;> simp [charCode, hc]

/-- The token can be read as what it counts as, and as nothing else. -/
structure ReadAsClassified (m : Machine) (t : Token) : Prop where
  numeric : t.isNumeric = true ↔ ∃ n, t.toNumeric m = .ok n
  string : t.isString = true ↔ ∃ s, t.toString m = .ok s

/-- A letter alone that is the name of no variable. Numeric characters are no names, letters or not. -/
def isStrayLetter : Text → Bool
  | [c] => isLetter c && !BasicMachine.isNumeric c && !namesVariable c
  | _ => false

/-- A character in quotes that has no byte. -/
def isStrayLiteral : Text → Bool
  | ['\'', c, '\''] => (CodePage.encodeChar? c).isNone
  | _ => false

theorem decode_letter {c : Char} (hc : isLetter c = true) (hnumber : BasicMachine.isNumeric c = false) :
    decode [c] = .ok (.numericVar (upper [c])) := by
  have hne (d : Char) (hd : isLetter d = false) : c ≠ d := by
    rintro rfl
    simp [hd] at hc
  simp [decode, hne '$' (by decide), hne '"' (by decide), hne '\'' (by decide), hnumber, hc,
    decodeLettered, asNumericVar]

theorem isNumeric_of_decode_var {c : Char} {name : Text} (h : decode [c] = .ok (.numericVar name)) :
    BasicMachine.isNumeric c = false := by
  rw [Bool.eq_false_iff]
  intro hnumber
  have hdollar : c ≠ '$' := by
    rintro rfl
    exact absurd hnumber (by decide)
  simp only [decode, if_neg hdollar, if_pos hnumber, asNumber] at h
  split at h <;> cases h

variable {part : Text} {token : Token} {m : Machine}

theorem isStrayLetter_of_decode (h : decode part = .ok token) (hvar : token.isNumericVar = false) :
    isStrayLetter part = false := by
  unfold isStrayLetter
  split
  · next c =>
    rw [Bool.eq_false_iff]
    intro hstray
    simp only [Bool.and_eq_true, Bool.not_eq_true'] at hstray
    rw [decode_letter hstray.1.1 hstray.1.2] at h
    cases h
    cases hvar
  · rfl

theorem isStrayLiteral_of_decode (h : decode part = .ok token) (hchar : ∀ t, token ≠ .char t) :
    isStrayLiteral part = false := by
  unfold isStrayLiteral
  split
  · exact absurd (Except.ok.inj h).symm (hchar _)
  · rfl

theorem numeric_of_decode (hm : 17664 ≤ m.memory.size) (h : decode part = .ok token) :
    (token.isNumeric = true ↔ ∃ n, token.toNumeric m = .ok n) ↔
      isStrayLetter part = false ∧ isStrayLiteral part = false := by
  -- the kind of the token promises too much of a variable or a literal only
  have hother (hvar : token.isNumericVar = false) (hchar : ∀ t, token ≠ .char t) :=
    And.intro (isStrayLetter_of_decode h hvar) (isStrayLiteral_of_decode h hchar)
  cases decoded_of_decode h with
  | numericVar c letter =>
    have hread : (∃ n, toNumeric m (.numericVar (upper [c])) = .ok n) ↔ namesVariable c = true := by
      rw [← Machine.upper_eq_numericName_iff, ← Machine.numeric_eq_ok_iff hm, toNumeric]
      cases m.numeric (upper [c]) <;> simp [bind, Except.bind, pure, Except.pure]
    have hnumber := isNumeric_of_decode_var h
    rw [hread]
    simp [isNumeric, isStrayLetter, isStrayLiteral, letter, hnumber]
  | char c =>
    simp [isNumeric, toNumeric, charCode_eq_ok_iff, isStrayLetter, isStrayLiteral]
  | word c t letters =>
    refine iff_of_true ?_ (hother rfl (by simp))
    cases hkeyword : Keyword.ofName? (c :: t) <;> simp [isNumeric, toNumeric, hkeyword]
  | stringRef t c tight digit =>
    refine iff_of_true ?_ (hother rfl (by simp))
    simpa [isNumeric, toNumeric] using exists_stringAddress digit
  | _ => exact iff_of_true (by simp [isNumeric, toNumeric]) (hother rfl (by simp))

/-- The token has come from the part; the text of a comment is taken from the line. -/
inductive ComesFrom (part : Text) : Token → Prop
  | decoded {token : Token} (h : decode part = .ok token) : ComesFrom part token
  | remark (t : Text) (h : decode part = .ok (.comment [])) : ComesFrom part (.comment t)

theorem ComesFrom.string_iff (h : ComesFrom part token) (m : Machine) :
    token.isString = true ↔ ∃ s, token.toString m = .ok s := by
  cases h with
  | decoded h =>
    cases decoded_of_decode h with
    | stringVar c digit => simpa [isString, toString] using exists_string digit m
    | _ => simp [isString, toString]
  | remark => simp [isString, toString]

theorem ComesFrom.numeric_iff (h : ComesFrom part token) (hm : 17664 ≤ m.memory.size) :
    (token.isNumeric = true ↔ ∃ n, token.toNumeric m = .ok n) ↔
      isStrayLetter part = false ∧ isStrayLiteral part = false := by
  cases h with
  | decoded h => exact numeric_of_decode hm h
  | remark t h =>
    exact iff_of_true (by simp [isNumeric, toNumeric])
      ⟨isStrayLetter_of_decode h rfl, isStrayLiteral_of_decode h (by simp)⟩

theorem ComesFrom.readAsClassified_iff (h : ComesFrom part token) (hm : 17664 ≤ m.memory.size) :
    ReadAsClassified m token ↔ isStrayLetter part = false ∧ isStrayLiteral part = false := by
  rw [← h.numeric_iff hm]
  exact ⟨fun hread => hread.numeric, fun hnumeric => ⟨hnumeric, h.string_iff m⟩⟩

theorem ComesFrom.named_iff (h : ComesFrom part token) :
    (∀ name, token = .numericVar name → ∃ i, name = Machine.numericName i) ↔
      isStrayLetter part = false := by
  cases h with
  | decoded h =>
    cases decoded_of_decode h with
    | numericVar c letter =>
      have hnumber := isNumeric_of_decode_var h
      have hname := Machine.upper_eq_numericName_iff c
      simp [isStrayLetter, letter, hnumber, ← hname]
    | _ => exact iff_of_true (by simp) (isStrayLetter_of_decode h rfl)
  | remark t h => exact iff_of_true (by simp) (isStrayLetter_of_decode h rfl)

theorem parse_comesFrom {line : Text} {tokens : List Token} (h : parse line = .ok tokens) :
    ∃ parts, splitLine line = .ok parts ∧ List.Forall₂ ComesFrom parts tokens := by
  obtain ⟨parts, found, hsplit, hdecode, -⟩ := parse_eq_ok h
  refine ⟨parts, hsplit, ?_⟩
  have hread := decodeAll_eq_ok hdecode
  simp only [parse, hsplit, hdecode, bind, Except.bind] at h
  obtain ⟨s, hfeed, hfinish⟩ := splitLine_eq_ok hsplit
  rcases Splitter.splitLine_cases hfeed hfinish with ⟨r, v, rfl, hr⟩ | ⟨-, hshielded⟩
  · have hremark := decode_remark hr v
    obtain rfl : found = [.comment []] := by
      simpa [decodeAll, hremark, bind, Except.bind, pure, Except.pure] using hdecode.symm
    cases h
    exact .cons (.remark _ hremark) .nil
  · have hcode : ∀ t ts, found ≠ .comment t :: ts := by
      rintro t ts rfl
      cases hread with
      | cons hfirst _ => exact absurd (isComment_of_shielded (hshielded _ (by simp)) hfirst) (by simp [isComment])
    split at h
    · next t ts => exact absurd rfl (hcode t ts)
    · cases h
      exact hread.imp fun _ _ => .decoded

end Token

namespace Splitter

def chars (s : Splitter) : Text := s.parts.flatten ++ s.word

theorem Step.chars_cases {s s' : Splitter} {c : Char} (h : Step s c s') :
    s'.chars = s.chars ∨ s'.chars = s.chars ++ [c] := by
  cases h <;> simp [chars, add, flush]

theorem chars_feed {s s' : Splitter} {t : Text} (h : feed s t = .ok s') : s'.chars ⊆ s.chars ++ t := by
  induction t generalizing s with
  | nil =>
    cases h
    simp
  | cons c t ih =>
    cases hc : s.step c with
    | error e => simp [feed, hc] at h
    | ok s₁ =>
      rw [feed_cons hc] at h
      intro d hd
      have hrest := ih h hd
      rcases (step_cases hc).chars_cases with heq | heq <;> rw [heq] at hrest <;> simp at hrest ⊢ <;> tauto

end Splitter

theorem mem_of_mem_strip {t : Text} {c : Char} (h : c ∈ strip t) : c ∈ t := by
  simp only [strip, trimBoth, List.mem_reverse] at h
  have h := (List.dropWhile_suffix _).subset h
  exact (List.dropWhile_suffix _).subset (List.mem_reverse.mp h)

theorem mem_line_of_mem_part {line : Text} {parts : List Text} (h : splitLine line = .ok parts)
    {p : Text} (hp : p ∈ parts) {c : Char} (hc : c ∈ p) : c ∈ line := by
  obtain ⟨s, hfeed, hfinish⟩ := Token.splitLine_eq_ok h
  have hkept : c ∈ s.chars := by
    unfold Splitter.finish at hfinish
    split at hfinish
    · cases hfinish
    cases hfinish
    have hsome : p ∈ s.parts ∨ p = s.word := by
      split at hp
      · exact .inl hp
      · simpa using hp
    rcases hsome with hpart | rfl
    · exact List.mem_append_left _ (List.mem_flatten.mpr ⟨p, hpart, hc⟩)
    · exact List.mem_append_right _ hc
  exact mem_of_mem_strip (by simpa [Splitter.chars] using Splitter.chars_feed hfeed hkept)

namespace Token

theorem forall_mem_iff_of_forall₂ {α β : Type} {R : α → β → Prop} {P : α → Prop} {Q : β → Prop}
    {as : List α} {bs : List β} (h : List.Forall₂ R as bs) (hiff : ∀ a b, R a b → (Q b ↔ P a)) :
    (∀ b ∈ bs, Q b) ↔ ∀ a ∈ as, P a := by
  induction h with
  | nil => simp
  | cons hab _ ih => simp [hiff _ _ hab, ih]

private theorem numeric_or_letter_in_page :
    ∀ n ∈ CodePage.upperHalf, inRanges numericRanges n = false ∨ inRanges letterRanges n = false := by
  decide +kernel

theorem mem_upperHalf {c : Char} {b : UInt8} (h : CodePage.encodeChar? c = some b)
    (hascii : ¬c.toNat < 128) : c.toNat ∈ CodePage.upperHalf := by
  rw [CodePage.encodeChar?, if_neg hascii] at h
  obtain ⟨i, hi, -⟩ := Option.map_eq_some_iff.mp h
  exact List.isSome_idxOf?.mp (by simp [hi])

theorem isNumeric_of_encodeChar? {c : Char} {b : UInt8} (h : CodePage.encodeChar? c = some b)
    (hletter : isLetter c = true) : BasicMachine.isNumeric c = false := by
  unfold isLetter at hletter
  split at hletter
  · exact isNumeric_of_isAlpha hletter
  · next hascii =>
    rw [BasicMachine.isNumeric, if_neg hascii]
    exact (numeric_or_letter_in_page _ (mem_upperHalf h hascii)).resolve_right (by simp [hletter])

/-- Among the letters with a byte, only those of the alphabet name variables. -/
theorem namesVariable_of_encodeChar? {c : Char} {b : UInt8} (h : CodePage.encodeChar? c = some b) :
    namesVariable c = c.isAlpha := by
  have hne (d : Char) (hd : 128 ≤ d.toNat) (hpage : d.toNat ∉ CodePage.upperHalf) : (c == d) = false := by
    rw [beq_eq_false_iff_ne]
    rintro rfl
    exact hpage (mem_upperHalf h (Nat.not_lt.mpr hd))
  simp [namesVariable, hne 'ı' (by decide) (by decide), hne 'ſ' (by decide) (by decide)]

/-- A text of characters with bytes is astray only as a letter that is none of the alphabet's. -/
theorem stray_of_encodable {p : Text} (h : ∀ c ∈ p, ∃ b, CodePage.encodeChar? c = some b) :
    isStrayLiteral p = false ∧
      (isStrayLetter p = true ↔ ∃ c, p = [c] ∧ isLetter c = true ∧ c.isAlpha = false) := by
  constructor
  · unfold isStrayLiteral
    split
    · next c =>
      obtain ⟨b, hb⟩ := h c (by simp)
      simp [hb]
    · rfl
  · constructor
    · intro hstray
      match p, hstray with
      | [c], hstray =>
        obtain ⟨b, hb⟩ := h c (by simp)
        simp only [isStrayLetter, namesVariable_of_encodeChar? hb, Bool.and_eq_true,
          Bool.not_eq_true'] at hstray
        exact ⟨c, rfl, hstray.1.1, hstray.2⟩
    · rintro ⟨c, rfl, hletter, halpha⟩
      obtain ⟨b, hb⟩ := h c (by simp)
      simp [isStrayLetter, hletter, isNumeric_of_encodeChar? hb hletter,
        namesVariable_of_encodeChar? hb, halpha]

/-- What the parts of a line tell about reading its tokens as arguments: all of them are read as they are
classified exactly if no part is a stray letter or a stray literal. Only stray letters are taken for
variables that do not exist, and a line that is stored in memory has no other stray parts. -/
structure ReadingDecided (line : Text) (parts : List Text) (tokens : List Token) : Prop where
  classified : ∀ m, Machine.Reachable m → ((∀ t ∈ tokens, t.ReadAsClassified m) ↔
    ∀ p ∈ parts, isStrayLetter p = false ∧ isStrayLiteral p = false)
  strings : ∀ m, ∀ t ∈ tokens, t.isString = true ↔ ∃ s, t.toString m = .ok s
  named : (∀ t ∈ tokens, ∀ name, t = .numericVar name → ∃ i, name = Machine.numericName i) ↔
    ∀ p ∈ parts, isStrayLetter p = false
  stored : ∀ bytes, line = CodePage.decode bytes → ∀ p ∈ parts, isStrayLiteral p = false ∧
    (isStrayLetter p = true ↔ ∃ c, p = [c] ∧ isLetter c = true ∧ c.isAlpha = false)

theorem accepted_readingDecided (line : Text) (tokens : List Token) (hparse : parse line = .ok tokens) :
    ∃ parts, splitLine line = .ok parts ∧ ReadingDecided line parts tokens := by
  obtain ⟨parts, hsplit, hfrom⟩ := parse_comesFrom hparse
  refine ⟨parts, hsplit, ?_, ?_, ?_, ?_⟩
  · intro m hm
    have hsize := hm.size
    exact forall_mem_iff_of_forall₂ hfrom fun part token h => h.readAsClassified_iff (by omega)
  · intro m
    have hall : ∀ part token, ComesFrom part token →
        ((token.isString = true ↔ ∃ s, token.toString m = .ok s) ↔ True) :=
      fun part token h => iff_true_intro (h.string_iff m)
    exact (forall_mem_iff_of_forall₂ hfrom hall).mpr fun _ _ => trivial
  · exact forall_mem_iff_of_forall₂ hfrom fun part token h => h.named_iff
  · rintro bytes rfl p hp
    apply stray_of_encodable
    intro c hc
    obtain ⟨b, -, rfl⟩ := List.mem_map.mp (mem_line_of_mem_part hsplit hp hc)
    exact ⟨b, CodePage.encodeChar?_decodeByte b⟩

def foreignLine : Text := "ſ = &$3 + 'é' * RAMSTART".toList

def foreignTokens : List Token :=
  [.numericVar ['S'], .symbol ['='], .stringRef ['&', '$', '3'], .symbol ['+'],
    .char ['\'', 'é', '\''], .symbol ['*'], .word "RAMSTART".toList]

theorem foreignTokens_readAsClassified :
    parse foreignLine = .ok foreignTokens ∧ Machine.Reachable {} ∧
      ∀ t ∈ foreignTokens, t.ReadAsClassified {} := by
  have hparse : parse foreignLine = .ok foreignTokens := by decide +kernel
  have hstart : Machine.Reachable {} := .blank rfl
  obtain ⟨parts, hsplit, hreading⟩ := accepted_readingDecided foreignLine foreignTokens hparse
  refine ⟨hparse, hstart, (hreading.classified {} hstart).mpr ?_⟩
  have hparts : ∀ found, splitLine foreignLine = .ok found → found =
      [['ſ'], ['='], ['&', '$', '3'], ['+'], ['\'', 'é', '\''], ['*'], "RAMSTART".toList] := by
    have hfound : splitLine foreignLine = .ok [['ſ'], ['='], ['&', '$', '3'], ['+'], ['\'', 'é', '\''],
        ['*'], "RAMSTART".toList] := by decide +kernel
    exact fun found h => Except.ok.inj (h.symm.trans hfound)
  rw [hparts parts hsplit]
  decide +kernel

/-- The letter `é` is taken for the variable `É`, which does not exist. -/
theorem unreadable_variable :
    parse "é".toList = .ok [.numericVar ['É']] ∧ Machine.Reachable {} ∧
      ¬ReadAsClassified {} (.numericVar ['É']) := by
  refine ⟨by decide +kernel, .blank rfl, ?_⟩
  intro h
  obtain ⟨n, hn⟩ := h.numeric.mp rfl
  cases hn

end Token
end BasicMachine
