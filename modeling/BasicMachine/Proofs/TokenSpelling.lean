import BasicMachine.Argument
import BasicMachine.Token.Decode
import Mathlib

/-! The canonical spelling of tokens. A canonical token is one that a line can spell without ambiguity;
its spelling is decoded back into the token itself. -/
namespace BasicMachine

theorem isAlpha_iff {c : Char} :
    c.isAlpha = true ↔ 65 ≤ c.toNat ∧ c.toNat ≤ 90 ∨ 97 ≤ c.toNat ∧ c.toNat ≤ 122 := by
  simp [Char.isAlpha, Char.isUpper, Char.isLower, UInt32.le_iff_toNat_le, ← Char.toNat_val]

theorem isUpper_iff {c : Char} : c.isUpper = true ↔ 65 ≤ c.toNat ∧ c.toNat ≤ 90 := by
  simp [Char.isUpper, UInt32.le_iff_toNat_le, ← Char.toNat_val]

theorem isDigit_iff {c : Char} : c.isDigit = true ↔ 48 ≤ c.toNat ∧ c.toNat ≤ 57 := by
  simp [Char.isDigit, UInt32.le_iff_toNat_le, ← Char.toNat_val]

theorem isLetter_of_isAlpha {c : Char} (h : c.isAlpha = true) : isLetter c = true := by
  have hb := isAlpha_iff.mp h
  rw [isLetter_ascii (by omega), h]

theorem isNumeric_of_isDigit {c : Char} (h : c.isDigit = true) : isNumeric c = true := by
  have hb := isDigit_iff.mp h
  rw [isNumeric_ascii (by omega), h]

theorem isNumeric_of_isAlpha {c : Char} (h : c.isAlpha = true) : isNumeric c = false := by
  have hb := isAlpha_iff.mp h
  rw [isNumeric_ascii (by omega), Bool.eq_false_iff]
  intro hd
  have := isDigit_iff.mp hd
  omega

theorem isBlank_of_visible {c : Char} (h : 33 ≤ c.toNat) (h' : c.toNat ≤ 126) :
    isBlank c = false := by
  have : ¬ c.toNat < 9 ∧ ¬ c.toNat ≤ 13 ∧ ¬ c.toNat < 28 ∧ ¬ c.toNat ≤ 32 ∧ c.toNat < 133 := by
    omega
  simp [isBlank, blankRanges, inRanges, this]

theorem dropWhile_of_head {p : Char → Bool} {t : Text} (h : ∀ c ∈ t.head?, p c = false) :
    t.dropWhile p = t := by
  cases t with
  | nil => rfl
  | cons c t => simp [h c (by simp)]

theorem trimBoth_of_ends {p : Char → Bool} {t : Text} (hh : ∀ c ∈ t.head?, p c = false)
    (hl : ∀ c ∈ t.getLast?, p c = false) : trimBoth p t = t := by
  have hr : ∀ c ∈ t.reverse.head?, p c = false := by simpa only [List.head?_reverse] using hl
  rw [trimBoth, dropWhile_of_head hh, dropWhile_of_head hr, List.reverse_reverse]

theorem upper_eq_map {t : Text} (h : ∀ c ∈ t, c.toNat < 128) : upper t = t.map Char.toUpper := by
  induction t with
  | nil => rfl
  | cons c t ih =>
    rw [upper_cons, upperChar_ascii (h c (by simp)), ih fun d hd => h d (by simp [hd])]
    rfl

theorem toUpper_of_not_lower {c : Char} (h : c.toNat < 97 ∨ 122 < c.toNat) : c.toUpper = c := by
  unfold Char.toUpper
  split
  · next hl =>
    simp only [UInt32.le_iff_toNat_le] at hl
    simp at hl
    omega
  · rfl

theorem toUpper_ne_space {c : Char} (h : c ≠ ' ') : c.toUpper ≠ ' ' := by
  intro he
  apply h
  unfold Char.toUpper at he
  split at he
  · next hl =>
    have := congrArg Char.toNat he
    simp only [UInt32.le_iff_toNat_le] at hl
    rw [← Char.toNat_val] at this
    simp at hl this
    omega
  · exact he

private theorem ofNat_ne_space {n : Nat} (h : n ≠ 32) : Char.ofNat n ≠ ' ' := by
  intro he
  have hn := congrArg Char.toNat he
  unfold Char.ofNat at hn
  split at hn
  · next hv => exact h hn
  · exact absurd hn (by decide)

private theorem space_not_mem_expansions : ∀ e ∈ upperExpansions, 32 ∉ e.2 := by decide +kernel

private theorem space_lt_runs : ∀ r ∈ upperRuns, 32 < r.first + r.shift := by decide +kernel

theorem space_not_mem_upperChar {c : Char} (h : c ≠ ' ') : ' ' ∉ upperChar c := by
  unfold upperChar
  split
  · simpa using Ne.symm (toUpper_ne_space h)
  · split
    · next cs hcs =>
      intro hm
      obtain ⟨n, hn, he⟩ := List.mem_map.mp hm
      obtain ⟨before, after, htable, _⟩ := List.lookup_eq_some_iff.mp hcs
      have hs := space_not_mem_expansions (c.toNat, cs) (by simp [htable])
      exact ofNat_ne_space (fun h32 => hs (h32 ▸ hn)) he
    · split
      · next r hr =>
        have hc := List.find?_some hr
        have hs := space_lt_runs r (List.mem_of_find?_eq_some hr)
        simp only [CaseRun.contains, Bool.and_eq_true, decide_eq_true_eq] at hc
        have hne : (c.toNat + r.shift).toNat ≠ 32 := by omega
        simpa using Ne.symm (ofNat_ne_space hne)
      · simpa using Ne.symm h

theorem not_remark_of_no_space {t : Text} (h : ' ' ∉ t) :
    ['R', 'E', 'M', ' '].isPrefixOf (upper t) = false := by
  rw [Bool.eq_false_iff]
  intro hp
  have hm := (List.isPrefixOf_iff_prefix.mp hp).subset (by simp : ' ' ∈ ['R', 'E', 'M', ' '])
  obtain ⟨c, hc, hu⟩ := List.mem_flatMap.mp hm
  exact space_not_mem_upperChar (fun he => h (he ▸ hc)) hu

theorem digitValue?_of_isDigit {c : Char} (h : c.isDigit = true) :
    digitValue? c = some (c.toNat - 48) := by
  have hb := isDigit_iff.mp h
  simp [digitValue?, h, show c.toNat < 128 by omega]

namespace Text

theorem readDigits?_of_isDigit {cs : Text} (h : ∀ c ∈ cs, c.isDigit = true) (value count : Nat) :
    readDigits? value count cs = some (Nat.ofDigitChars 10 cs value, count + cs.length) := by
  induction cs generalizing value count with
  | nil => simp [readDigits?]
  | cons c cs ih =>
    have hc : c.isDigit = true := h c (by simp)
    rw [readDigits?.eq_3 _ _ _ _ (by rintro d r rfl; exact absurd hc (by decide))]
    rw [digitValue?_of_isDigit hc, Option.bind_some, ih fun d hd => h d (by simp [hd]),
      Nat.ofDigitChars_cons, List.length_cons, Nat.mul_comm value]
    simp only [Option.some.injEq, Prod.mk.injEq]
    exact ⟨rfl, by omega⟩

/-- Up to `digitLimit` digits are read as the number they stand for. -/
theorem readInteger?_of_isDigit {t : Text} (hne : t ≠ []) (hd : ∀ c ∈ t, c.isDigit = true)
    (hlen : t.length ≤ digitLimit) : readInteger? t = some ((Nat.ofDigitChars 10 t 0 : Nat) : Int) := by
  have hblank (c : Char) (hc : c ∈ t) : isNumberBlank c = false := by
    have hb := isDigit_iff.mp (hd c hc)
    simp [isNumberBlank, isBlank_of_visible (c := c) (by omega) (by omega)]
  have hread : readNatural? t = some (Nat.ofDigitChars 10 t 0) := by
    obtain ⟨c, cs, rfl⟩ := List.exists_cons_of_ne_nil hne
    have hcs (d : Char) (hm : d ∈ cs) : d.isDigit = true := hd d (by simp [hm])
    rw [Nat.ofDigitChars_cons]
    simp only [readNatural?, digitValue?_of_isDigit (hd c (by simp)), readDigits?_of_isDigit hcs]
    simp at hlen ⊢
    omega
  unfold readInteger?
  rw [trimBoth_of_ends (fun c hc => hblank c (List.mem_of_head? hc))
    fun c hc => hblank c (List.mem_of_getLast? hc)]
  split
  · next rest => exact absurd (hd '-' (by simp)) (by decide)
  · next rest => exact absurd (hd '+' (by simp)) (by decide)
  · rw [hread]
    rfl

theorem readInteger?_ofNat {n : Nat} (h : n < 10 ^ digitLimit) :
    readInteger? (ofNat n) = some (n : Int) := by
  have hd (c : Char) (hc : c ∈ ofNat n) : c.isDigit = true :=
    Nat.isDigit_of_mem_toDigits (by decide) (by decide) hc
  have hlen : (ofNat n).length ≤ digitLimit :=
    (Nat.length_toDigits_le_iff (by decide) (by decide)).mpr h
  have hval : Nat.ofDigitChars 10 (ofNat n) 0 = n := Nat.ofDigitChars_ten_toDigits
  have hread := readInteger?_of_isDigit (t := ofNat n) Nat.toDigits_ne_nil hd hlen
  rwa [hval] at hread

end Text
namespace Token

/-- The written form of a token: a number by its digits, any other token by its text. -/
def spelling : Token → Text
  | number n => Text.ofInt n
  | token => token.text

/-- A visible ASCII character that is neither alphanumeric nor the start of another kind of token. -/
def isSymbolChar (c : Char) : Bool :=
  decide (33 ≤ c.toNat) && decide (c.toNat ≤ 126) && !c.isAlphanum &&
    !(['"', '\'', '$', '&'].contains c)

def stringDigits : List Char := ['1', '2', '3', '4', '5', '6', '7', '8']

/-- The tokens of the canonical language. A comment is not among them. -/
inductive Canonical : Token → Prop
  | word (t : Text) (long : 2 ≤ t.length) (letters : ∀ c ∈ t, c.isAlpha = true) :
    Canonical (.word t)
  | number (n : Nat) (short : n < 10 ^ Text.digitLimit) : Canonical (.number n)
  | quote (t : Text) (inner : '"' ∉ t) (line : '\r' ∉ t) : Canonical (.quote ('"' :: t ++ ['"']))
  | char (c : Char) (single : c ≠ '\'') (double : c ≠ '"') (line : c ≠ '\r') :
    Canonical (.char ['\'', c, '\''])
  | numericVar (c : Char) (capital : c.isUpper = true) : Canonical (.numericVar [c])
  | stringVar (d : Char) (digit : d ∈ stringDigits) : Canonical (.stringVar ['$', d])
  | stringRef (d : Char) (digit : d ∈ stringDigits) : Canonical (.stringRef ['&', '$', d])
  | label (c : Char) (t : Text) (first : c.isAlpha = true)
    (others : ∀ d ∈ t, isAlphanumeric d = true) : Canonical (.label (c :: t ++ [':']))
  | symbol (c : Char) (kind : isSymbolChar c = true) : Canonical (.symbol [c])

private theorem isVariableDigit_stringDigits : ∀ d ∈ stringDigits, isVariableDigit d = .ok true := by
  have hall : (stringDigits.all fun d => isVariableDigit d = .ok true) = true := by decide +kernel
  simpa only [List.all_eq_true, decide_eq_true_eq] using hall

theorem stringDigits_range : ∀ d ∈ stringDigits, 49 ≤ d.toNat ∧ d.toNat ≤ 56 := by
  have hall : (stringDigits.all fun d => 49 ≤ d.toNat ∧ d.toNat ≤ 56) = true := by decide
  simpa only [List.all_eq_true, decide_eq_true_eq] using hall

theorem decode_of_isAlpha {c : Char} (h : c.isAlpha = true) (t : Text) :
    decode (c :: t) = decodeLettered (c :: t) := by
  have hb := isAlpha_iff.mp h
  have ne (d : Char) (hd : d.isAlpha = false) : c ≠ d := by
    rintro rfl
    simp [h] at hd
  simp [decode, ne '$' rfl, ne '"' rfl, ne '\'' rfl, isNumeric_of_isAlpha h, isLetter_of_isAlpha h]

theorem decode_word {t : Text} (long : 2 ≤ t.length) (letters : ∀ c ∈ t, c.isAlpha = true) :
    decode t = .ok (.word t) := by
  have hrem : ['R', 'E', 'M', ' '].isPrefixOf (upper t) = false :=
    not_remark_of_no_space fun hs => absurd (letters ' ' hs) (by decide)
  have hcolon : t.getLast? ≠ some ':' := by
    intro hl
    exact absurd (letters ':' (List.mem_of_getLast? hl)) (by decide)
  have hword : asWord t = .ok (.word t) := by
    have hne : t ≠ [] := by
      rintro rfl
      simp at long
    have hall : t.all isLetter = true :=
      List.all_eq_true.mpr fun c hc => isLetter_of_isAlpha (letters c hc)
    simp [asWord, hall, hne]
  cases t with
  | nil => simp at long
  | cons c t =>
    rw [decode_of_isAlpha (letters c (by simp)), decodeLettered, if_neg (by omega), hrem]
    simp [hcolon, hword]

theorem decode_label {c : Char} {t : Text} (first : c.isAlpha = true)
    (others : ∀ d ∈ t, isAlphanumeric d = true) :
    decode (c :: t ++ [':']) = .ok (.label (c :: t ++ [':'])) := by
  have hrem : ['R', 'E', 'M', ' '].isPrefixOf (upper (c :: t ++ [':'])) = false := by
    apply not_remark_of_no_space
    intro hs
    simp only [List.cons_append, List.mem_cons, List.mem_append, List.not_mem_nil, or_false] at hs
    rcases hs with rfl | hs | hs
    · exact absurd first (by decide)
    · exact absurd (others ' ' hs) (by decide)
    · exact absurd hs (by decide)
  have hlast : (c :: t ++ [':']).getLast? = some ':' := List.getLast?_concat
  rw [List.cons_append, decode_of_isAlpha first, decodeLettered, if_neg (by simp),
    ← List.cons_append, hrem, if_neg (by simp), if_pos hlast]

theorem decode_of_isDigit {c : Char} {t : Text} {n : Int} (hc : c.isDigit = true)
    (hread : Text.readInteger? (c :: t) = some n) : decode (c :: t) = .ok (.number n) := by
  have hdollar : c ≠ '$' := by rintro rfl; exact absurd hc (by decide)
  simp [decode, hdollar, isNumeric_of_isDigit hc, asNumber, hread]

theorem decode_number {n : Nat} (short : n < 10 ^ Text.digitLimit) :
    decode (Text.ofNat n) = .ok (.number n) := by
  have hread := Text.readInteger?_ofNat short
  cases hn : Text.ofNat n with
  | nil => exact absurd hn Nat.toDigits_ne_nil
  | cons c t =>
    rw [hn] at hread
    exact decode_of_isDigit
      (Nat.isDigit_of_mem_toDigits (by decide) (by decide) (hn ▸ List.mem_cons_self)) hread

theorem isSymbolChar_iff {c : Char} : isSymbolChar c = true ↔
    (33 ≤ c.toNat ∧ c.toNat ≤ 126) ∧ (c.isAlpha = false ∧ c.isDigit = false) ∧
      c ≠ '"' ∧ c ≠ '\'' ∧ c ≠ '$' ∧ c ≠ '&' := by
  simp [isSymbolChar, Char.isAlphanum, and_assoc]

theorem decode_symbol {c : Char} (kind : isSymbolChar c = true) :
    decode [c] = .ok (.symbol [c]) := by
  obtain ⟨⟨_, hb⟩, ⟨ha, hd⟩, hdouble, hsingle, hdollar, hamp⟩ := isSymbolChar_iff.mp kind
  have hl : isLetter c = false := by rw [isLetter_ascii (by omega), ha]
  have hn : BasicMachine.isNumeric c = false := by rw [isNumeric_ascii (by omega), hd]
  simp [decode, hdouble, hsingle, hdollar, hamp, hl, hn, asSymbol]

/-- A canonical token is what its spelling stands for. -/
theorem Canonical.decode_spelling {token : Token} (h : Canonical token) :
    decode token.spelling = .ok token := by
  cases h with
  | word t long letters => exact decode_word long letters
  | number n short => exact decode_number short
  | quote t inner line =>
    have hlast : ('"' :: t ++ ['"']).getLast? = some '"' := List.getLast?_concat
    change asQuote ('"' :: t ++ ['"']) = _
    rw [asQuote, if_pos ⟨rfl, hlast⟩]
  | char c single double line => rfl
  | numericVar c capital =>
    have ha : c.isAlpha = true := by simp [Char.isAlpha, capital]
    have hu : upper [c] = [c] := by
      have hc := isUpper_iff.mp capital
      rw [upper_eq_map (by simp; omega), List.map_singleton, toUpper_of_not_lower (by omega)]
    change decode [c] = _
    rw [decode_of_isAlpha ha, decodeLettered, if_pos (by simp), asNumericVar,
      isLetter_of_isAlpha ha, hu]
    rfl
  | stringVar d digit =>
    change asStringVar ['$', d] = _
    rw [asStringVar, isVariableDigit_stringDigits d digit]
    rfl
  | stringRef d digit =>
    have hd : d ≠ ' ' := by rintro rfl; exact absurd digit (by decide)
    have htight : ['&', '$', d].filter (· != ' ') = ['&', '$', d] := by simp [hd]
    change asStringRef ['&', '$', d] = _
    simp [asStringRef, htight, isVariableDigit_stringDigits d digit]
    rfl
  | label c t first others => exact decode_label first others
  | symbol c kind => exact decode_symbol kind

end Token
end BasicMachine
