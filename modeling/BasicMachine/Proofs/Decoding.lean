import BasicMachine.Proofs.LineParts

/-! Reading parts as tokens, turned around: which part a token can come from, and what it keeps of it. Every
token but a comment stands for the whole part, except that a symbol stands for the first character
alone. -/
namespace BasicMachine

namespace Token

/-- No other kind of token begins with the character. -/
def isSymbolStart (c : Char) : Bool :=
  !(['$', '"', '\'', '&'].contains c) && !BasicMachine.isNumeric c && !isLetter c

theorem isSymbolStart_of_isNumeric {c : Char} (h : BasicMachine.isNumeric c = true) :
    isSymbolStart c = false := by
  simp [isSymbolStart, h]

theorem isSymbolStart_of_isLetter {c : Char} (h : isLetter c = true) : isSymbolStart c = false := by
  simp [isSymbolStart, h]

/-- What a part can be read as, and from which parts. -/
inductive Decoded : Text → Token → Prop
  | stringVar (c : Char) (digit : isVariableDigit c = .ok true) :
    Decoded ['$', c] (.stringVar ['$', c])
  | number (c : Char) (t : Text) (first : BasicMachine.isNumeric c = true) (n : Int)
    (value : Text.readInteger? (c :: t) = some n) : Decoded (c :: t) (.number n)
  | quote (t : Text) (last : ('"' :: t).getLast? = some '"') : Decoded ('"' :: t) (.quote ('"' :: t))
  | char (c : Char) : Decoded ['\'', c, '\''] (.char ['\'', c, '\''])
  | numericVar (c : Char) (letter : isLetter c = true) : Decoded [c] (.numericVar (upper [c]))
  | comment (t : Text) (remark : ['R', 'E', 'M', ' '].isPrefixOf (upper t) = true) :
    Decoded t (.comment [])
  | label (c : Char) (t : Text) (first : isLetter c = true) (last : (c :: t).getLast? = some ':') :
    Decoded (c :: t) (.label (c :: t))
  | word (c : Char) (t : Text) (letters : ∀ d ∈ c :: t, isLetter d = true) :
    Decoded (c :: t) (.word (c :: t))
  | stringRef (t : Text) (c : Char) (tight : ('&' :: t).filter (· != ' ') = ['&', '$', c])
    (digit : isVariableDigit c = .ok true) : Decoded ('&' :: t) (.stringRef ['&', '$', c])
  | symbol (c : Char) (t : Text) (kind : isSymbolStart c = true) : Decoded (c :: t) (.symbol [c])

private theorem of_digit_ok {c : Char} {found token : Token} {e : Fault}
    (h : (do if ← isVariableDigit c then pure found else throw e : Except Fault Token) =
      .ok token) : isVariableDigit c = .ok true ∧ found = token := by
  obtain ⟨b, hdigit, hfound⟩ := bind_eq_ok_iff.mp h
  cases b with
  | false => cases hfound
  | true => exact ⟨hdigit, Except.ok.inj hfound⟩

theorem asStringVar_eq_ok {part : Text} {token : Token} (h : asStringVar part = .ok token) :
    Decoded part token := by
  unfold asStringVar at h
  split at h
  · next c =>
    obtain ⟨hdigit, rfl⟩ := of_digit_ok h
    exact .stringVar c hdigit
  · cases h

theorem asStringRef_eq_ok {t : Text} {token : Token} (h : asStringRef ('&' :: t) = .ok token) :
    Decoded ('&' :: t) token := by
  unfold asStringRef at h
  dsimp only at h
  split at h
  · next c htight =>
    obtain ⟨hdigit, rfl⟩ := of_digit_ok h
    rw [htight]
    exact .stringRef t c htight hdigit
  · cases h

theorem decodeLettered_eq_ok {c : Char} {t : Text} {token : Token} (hc : isLetter c = true)
    (h : decodeLettered (c :: t) = .ok token) : Decoded (c :: t) token := by
  unfold decodeLettered at h
  split at h
  · next hlength =>
    obtain rfl : t = [] := by simpa using hlength
    simp only [asNumericVar, hc, if_true, Except.ok.injEq] at h
    subst h
    exact .numericVar c hc
  split at h
  · next hremark =>
    cases h
    exact .comment _ hremark
  split at h
  · next hlast =>
    cases h
    exact .label c t hc hlast
  unfold asWord at h
  split at h
  · next hletters =>
    cases h
    refine .word c t ?_
    simpa using hletters
  · cases h

theorem decoded_of_decode {part : Text} {token : Token} (h : decode part = .ok token) :
    Decoded part token := by
  cases part with
  | nil => cases h
  | cons c t =>
    simp only [decode] at h
    split at h
    · exact asStringVar_eq_ok h
    next hdollar =>
    split at h
    · next hnumeric =>
      unfold asNumber at h
      split at h
      · next n hn =>
        cases h
        exact .number c t hnumeric n hn
      · cases h
    next hnumeric =>
    split at h
    · next hc =>
      subst hc
      unfold asQuote at h
      split at h
      · next hends =>
        cases h
        exact .quote t hends.2
      · cases h
    next hdouble =>
    split at h
    · next hc =>
      unfold asChar at h
      split at h
      · next d hpart =>
        cases h
        rw [hpart]
        exact .char d
      · cases h
    next hsingle =>
    split at h
    · next hletter => exact decodeLettered_eq_ok hletter h
    next hletter =>
    split at h
    · next hc =>
      subst hc
      exact asStringRef_eq_ok h
    next hamp =>
    cases h
    exact .symbol c t (by simp [isSymbolStart, hdollar, hnumeric, hdouble, hsingle, hletter, hamp])

/-- The token stands for the whole part. -/
def Represents (part : Text) : Token → Prop
  | word t | quote t | char t | label t | stringVar t | symbol t => t = part
  | numericVar name => name = upper part
  | number n => Text.readInteger? part = some n
  | stringRef name => name = part.filter (· != ' ')
  | comment _ => False

instance (part : Text) : (token : Token) → Decidable (Represents part token)
  | word t | quote t | char t | label t | stringVar t | symbol t => inferInstanceAs (Decidable (t = part))
  | numericVar name => inferInstanceAs (Decidable (name = upper part))
  | number n => inferInstanceAs (Decidable (Text.readInteger? part = some n))
  | stringRef name => inferInstanceAs (Decidable (name = part.filter (· != ' ')))
  | comment _ => isFalse id

/-- What a token shows of its part: of a part that begins with a symbol only this one. -/
def kept : Text → Text
  | [] => []
  | c :: t => if isSymbolStart c then [c] else c :: t

theorem kept_of_not_symbol {c : Char} (h : isSymbolStart c = false) (t : Text) :
    kept (c :: t) = c :: t := by
  simp [kept, h]

/-- A symbol keeps the first character of its part, and every other token but a comment all of it. -/
theorem Decoded.symbol_or_whole {part : Text} {token : Token} (h : Decoded part token)
    (hcode : token.isComment = false) :
    (∃ c t, part = c :: t ∧ isSymbolStart c = true ∧ token = .symbol [c]) ∨
      kept part = part ∧ Represents part token := by
  cases h with
  | stringVar c digit => exact .inr ⟨rfl, rfl⟩
  | number c t first n value =>
    exact .inr ⟨kept_of_not_symbol (isSymbolStart_of_isNumeric first) t, value⟩
  | quote t last => exact .inr ⟨rfl, rfl⟩
  | char c => exact .inr ⟨rfl, rfl⟩
  | numericVar c letter =>
    exact .inr ⟨kept_of_not_symbol (isSymbolStart_of_isLetter letter) [], rfl⟩
  | comment => cases hcode
  | label c t first last =>
    exact .inr ⟨kept_of_not_symbol (isSymbolStart_of_isLetter first) t, rfl⟩
  | word c t letters =>
    exact .inr ⟨kept_of_not_symbol (isSymbolStart_of_isLetter (letters c (by simp))) t, rfl⟩
  | stringRef t c tight digit => exact .inr ⟨rfl, tight.symm⟩
  | symbol c t kind => exact .inl ⟨c, t, rfl, kind, rfl⟩

theorem Decoded.represents_kept {part : Text} {token : Token} (h : Decoded part token)
    (hcode : token.isComment = false) : Represents (kept part) token := by
  rcases h.symbol_or_whole hcode with ⟨c, t, rfl, kind, rfl⟩ | ⟨hkept, hpart⟩
  · simp [kept, kind, Represents]
  · rwa [hkept]

theorem Decoded.represents_iff {part : Text} {token : Token} (h : Decoded part token)
    (hcode : token.isComment = false) : Represents part token ↔ kept part = part := by
  rcases h.symbol_or_whole hcode with ⟨c, t, rfl, kind, rfl⟩ | ⟨hkept, hpart⟩
  · simp [kept, kind, Represents]
  · exact iff_of_true hpart hkept

theorem decode_remark {r : Text} (h : upper r = ['R', 'E', 'M']) (v : Text) :
    decode (r ++ ' ' :: v) = .ok (.comment []) := by
  obtain ⟨hlength, hletters⟩ := remark_letters h
  have hremark : ['R', 'E', 'M', ' '].isPrefixOf (upper (r ++ ' ' :: v)) = true := by
    rw [List.isPrefixOf_iff_prefix, upper_append, h]
    exact ⟨upper v, rfl⟩
  cases r with
  | nil => cases hlength
  | cons c r =>
    rw [List.cons_append, decode_of_isAlpha (hletters c (by simp)), decodeLettered,
      if_neg (by simp), ← List.cons_append, hremark]
    rfl

theorem decodeAll_eq_ok {parts : List Text} {tokens : List Token}
    (h : decodeAll parts = .ok tokens) :
    List.Forall₂ (fun part token => decode part = .ok token) parts tokens := by
  induction parts generalizing tokens with
  | nil =>
    cases h
    exact .nil
  | cons part parts ih =>
    rw [decodeAll] at h
    obtain ⟨token, hpart, hbehind⟩ := bind_eq_ok_iff.mp h
    obtain ⟨rest, hrest, hcons⟩ := bind_eq_ok_iff.mp hbehind
    cases hcons
    exact .cons hpart (ih hrest)

theorem parse_eq_ok {line : Text} {tokens : List Token} (h : parse line = .ok tokens) :
    ∃ parts found, splitLine line = .ok parts ∧ decodeAll parts = .ok found ∧
      (tokens = found ∨ ∃ t, tokens = [.comment t]) := by
  obtain ⟨parts, hsplit, hparts⟩ := bind_eq_ok_iff.mp h
  obtain ⟨found, hdecode, hfound⟩ := bind_eq_ok_iff.mp hparts
  refine ⟨parts, found, hsplit, hdecode, ?_⟩
  split at hfound
  · exact .inr ⟨_, (Except.ok.inj hfound).symm⟩
  · exact .inl (Except.ok.inj hfound).symm

theorem isComment_of_shielded {part : Text} {token : Token} (hshielded : Shielded part)
    (h : decode part = .ok token) : token.isComment = false := by
  cases decoded_of_decode h with
  | comment t remark =>
    rw [hshielded.not_remark] at remark
    cases remark
  | _ => rfl

end Token

namespace Text

theorem of_readDigits? {t : Text} {value count : Nat} {r : Nat × Nat}
    (h : readDigits? value count t = some r) : ∀ c ∈ t, c = '_' ∨ (digitValue? c).isSome = true := by
  fun_induction readDigits? value count t with
  | case1 => simp
  | case2 value count c rest ih =>
    obtain ⟨d, hd, hrest⟩ := Option.bind_eq_some_iff.mp h
    simp only [List.forall_mem_cons, true_or, true_and, hd, Option.isSome_some, or_true]
    exact ih d hrest
  | case3 value count c rest hno ih =>
    obtain ⟨d, hd, hrest⟩ := Option.bind_eq_some_iff.mp h
    simp only [List.forall_mem_cons, hd, Option.isSome_some, or_true, true_and]
    exact ih d hrest

theorem of_readNatural? {t : Text} {n : Nat} (h : readNatural? t = some n) :
    ∀ c ∈ t, c = '_' ∨ (digitValue? c).isSome = true := by
  cases t with
  | nil => simp
  | cons c t =>
    obtain ⟨d, hd, hrest⟩ := Option.bind_eq_some_iff.mp h
    obtain ⟨r, hr, -⟩ := Option.bind_eq_some_iff.mp hrest
    simp only [List.forall_mem_cons, hd, Option.isSome_some, or_true, true_and]
    exact of_readDigits? hr

theorem mem_trimBoth {p : Char → Bool} {t : Text} {c : Char} (hc : c ∈ t) (hp : p c = false) :
    c ∈ trimBoth p t := by
  have hdrop (s : Text) (hs : c ∈ s) : c ∈ s.dropWhile p := by
    rw [← @List.takeWhile_append_dropWhile _ p s] at hs
    rcases List.mem_append.mp hs with htake | hdrop
    · exact absurd (List.mem_takeWhile_imp htake) (by simp [hp])
    · exact hdrop
  rw [trimBoth, List.mem_reverse]
  exact hdrop _ (List.mem_reverse.mpr (hdrop t hc))

theorem quote_not_mem_of_readInteger? {t : Text} {n : Int} (h : readInteger? t = some n) :
    '"' ∉ t := by
  intro hquote
  have hmem : '"' ∈ trimBoth isNumberBlank t := mem_trimBoth hquote rfl
  have hdigits : ∃ s n, '"' ∈ s ∧ readNatural? s = some n := by
    unfold readInteger? at h
    split at h
    · next rest hrest =>
      obtain ⟨k, hk, -⟩ := Option.map_eq_some_iff.mp h
      obtain ⟨m, hm, -⟩ := Option.bind_eq_some_iff.mp hk
      exact ⟨rest, m, by simpa [hrest] using hmem, hm⟩
    · next rest hrest =>
      obtain ⟨m, hm, -⟩ := Option.map_eq_some_iff.mp h
      exact ⟨rest, m, by simpa [hrest] using hmem, hm⟩
    · obtain ⟨m, hm, -⟩ := Option.map_eq_some_iff.mp h
      exact ⟨_, m, hmem, hm⟩
  obtain ⟨s, m, hs, hm⟩ := hdigits
  exact absurd (of_readNatural? hm '"' hs) (by decide)

end Text

end BasicMachine
