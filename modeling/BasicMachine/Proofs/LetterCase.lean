import BasicMachine.Proofs.Decoding

/-! Lines in capitals. A line is split and decoded by the classes of its characters, and a letter of ASCII is in
the same classes as its capital. So a line in capitals has the tokens of the line in capitals, and where the one
is refused, so is the other, for the same reason. -/
namespace BasicMachine

def letterPairs : List (Char × Char) :=
  "abcdefghijklmnopqrstuvwxyz".toList.zip "ABCDEFGHIJKLMNOPQRSTUVWXYZ".toList

theorem exists_letterPair {c : Char} (hfirst : 97 ≤ c.toNat) (hlast : c.toNat ≤ 122) :
    (c, c.toUpper) ∈ letterPairs := by
  have hcodes : ∀ n ∈ List.range' 97 26, (Char.ofNat n, (Char.ofNat n).toUpper) ∈ letterPairs := by
    decide +kernel
  have hcode : c.toNat ∈ List.range' 97 26 := by
    rw [List.mem_range'_1]
    omega
  simpa only [Char.ofNat_toNat] using hcodes _ hcode

/-- What is the same for every small letter and its capital is so for every character. -/
theorem toUpper_class {α : Type} {f : Char → α} (h : ∀ p ∈ letterPairs, f p.2 = f p.1) (c : Char) :
    f c.toUpper = f c := by
  by_cases hc : 97 ≤ c.toNat ∧ c.toNat ≤ 122
  · exact h _ (exists_letterPair hc.1 hc.2)
  · rw [toUpper_of_not_lower (by omega)]

@[simp] theorem isBlank_toUpper (c : Char) : isBlank c.toUpper = isBlank c := toUpper_class (by decide) c

@[simp] theorem isLetter_toUpper (c : Char) : isLetter c.toUpper = isLetter c := toUpper_class (by decide) c

@[simp] theorem isNumeric_toUpper (c : Char) : isNumeric c.toUpper = isNumeric c := toUpper_class (by decide) c

@[simp] theorem digitValue?_toUpper (c : Char) : digitValue? c.toUpper = digitValue? c :=
  toUpper_class (by decide) c

@[simp] theorem upperChar_toUpper (c : Char) : upperChar c.toUpper = upperChar c := toUpper_class (by decide) c

@[simp] theorem isAlphanumeric_toUpper (c : Char) : isAlphanumeric c.toUpper = isAlphanumeric c := by
  simp [isAlphanumeric]

@[simp] theorem isNumberBlank_toUpper (c : Char) : Text.isNumberBlank c.toUpper = Text.isNumberBlank c :=
  toUpper_class (by decide) c

theorem toUpper_of_isNumeric {c : Char} (h : isNumeric c = true) : c.toUpper = c := by
  apply toUpper_of_not_lower
  by_contra hc
  have hpairs : ∀ p ∈ letterPairs, isNumeric p.1 = false := by decide
  rw [hpairs _ (exists_letterPair (c := c) (by omega) (by omega))] at h
  cases h

theorem toUpper_eq_iff {c k : Char} (hk : k.isAlpha = false) : c.toUpper = k ↔ c = k := by
  have hpairs : ∀ p ∈ letterPairs, p.1.isAlpha = true ∧ p.2.isAlpha = true := by decide
  have hclass : decide (c.toUpper = k) = decide (c = k) := by
    refine toUpper_class (f := fun c => decide (c = k)) (fun p hp => ?_) c
    have hsmall : p.1 ≠ k := by
      rintro rfl
      simp [(hpairs p hp).1] at hk
    have hcapital : p.2 ≠ k := by
      rintro rfl
      simp [(hpairs p hp).2] at hk
    simp [hsmall, hcapital]
  simpa using hclass

def capital (t : Text) : Text := t.map Char.toUpper

@[simp] theorem capital_nil : capital [] = [] := rfl

@[simp] theorem capital_cons (c : Char) (t : Text) : capital (c :: t) = c.toUpper :: capital t := rfl

@[simp] theorem capital_append (s t : Text) : capital (s ++ t) = capital s ++ capital t := List.map_append

@[simp] theorem length_capital (t : Text) : (capital t).length = t.length := List.length_map ..

@[simp] theorem isEmpty_capital (t : Text) : (capital t).isEmpty = t.isEmpty := by cases t <;> rfl

@[simp] theorem upper_capital (t : Text) : upper (capital t) = upper t := by
  induction t with
  | nil => rfl
  | cons c t ih => rw [capital_cons, upper_cons, upper_cons, upperChar_toUpper, ih]

theorem trimBoth_capital {p : Char → Bool} (hp : ∀ c, p c.toUpper = p c) (t : Text) :
    trimBoth p (capital t) = capital (trimBoth p t) := by
  have hcomp : p ∘ Char.toUpper = p := funext hp
  simp only [trimBoth, capital, List.dropWhile_map, ← List.map_reverse, hcomp]

namespace Text

theorem readDigits?_capital (value count : Nat) (t : Text) :
    readDigits? value count (capital t) = readDigits? value count t := by
  fun_induction readDigits? value count t with
  | case1 => rfl
  | case2 value count c rest ih =>
    rw [capital_cons, capital_cons, (toUpper_eq_iff (by decide)).mpr rfl, readDigits?, digitValue?_toUpper]
    simp only [ih]
  | case3 value count c rest hne ih =>
    rw [capital_cons, readDigits?, digitValue?_toUpper]
    · simp only [ih]
    · intro d rest' hc hrest
      cases rest with
      | nil => cases hrest
      | cons d rest => exact hne d rest ((toUpper_eq_iff (by decide)).mp hc) rfl

theorem readNatural?_capital (t : Text) : readNatural? (capital t) = readNatural? t := by
  cases t with
  | nil => rfl
  | cons c t => simp only [capital_cons, readNatural?, digitValue?_toUpper, readDigits?_capital]

theorem readInteger?_capital (t : Text) : readInteger? (capital t) = readInteger? t := by
  rw [readInteger?, readInteger?, trimBoth_capital isNumberBlank_toUpper]
  cases trimBoth isNumberBlank t with
  | nil => rfl
  | cons c u =>
    have hall := readNatural?_capital (c :: u)
    by_cases hminus : c = '-'
    · simp [hminus, show Char.toUpper '-' = '-' by decide, readNatural?_capital]
    by_cases hplus : c = '+'
    · simp [hplus, show Char.toUpper '+' = '+' by decide, readNatural?_capital]
    have hminus' : c.toUpper ≠ '-' := mt (toUpper_eq_iff (by decide)).mp hminus
    have hplus' : c.toUpper ≠ '+' := mt (toUpper_eq_iff (by decide)).mp hplus
    simp_all

end Text

/-- The fault with capitals in the part of a line that it names. -/
def Fault.inCapitals : Fault → Fault
  | malformed form part => malformed form (capital part)
  | e => e

/-- The result with capitals in the value or the fault. -/
def resultInCapitals {α : Type} (f : α → α) (r : Except Fault α) : Except Fault α :=
  (r.map f).mapError Fault.inCapitals

theorem resultInCapitals_bind {α β : Type} {f : α → α} {g : β → β} {k k' : α → Except Fault β}
    (h : ∀ a, k' (f a) = resultInCapitals g (k a)) (x : Except Fault α) :
    (resultInCapitals f x >>= k') = resultInCapitals g (x >>= k) := by
  cases x with
  | error e => rfl
  | ok a => exact h a

namespace Splitter

def inCapitals (s : Splitter) : Splitter := { s with parts := s.parts.map capital, word := capital s.word }

section Step

variable (s : Splitter) (c : Char)

@[simp] theorem inQuote_inCapitals : s.inCapitals.inQuote = s.inQuote := rfl

@[simp] theorem inChar_inCapitals : s.inCapitals.inChar = s.inChar := rfl

@[simp] theorem inComment_inCapitals : s.inCapitals.inComment = s.inComment := rfl

@[simp] theorem glue_inCapitals : s.inCapitals.glue = s.glue := rfl

@[simp] theorem word_inCapitals : s.inCapitals.word = capital s.word := rfl

theorem add_inCapitals : s.inCapitals.add c.toUpper = (s.add c).inCapitals := by simp [add, inCapitals]

theorem flush_inCapitals : s.inCapitals.flush = s.flush.inCapitals := by simp [flush, inCapitals]

theorem atRemark_inCapitals : s.inCapitals.atRemark = s.atRemark := by simp [atRemark, inCapitals]

theorem start_inCapitals : s.inCapitals.start c.toUpper = (s.start c).inCapitals := by
  simp only [start, toUpper_eq_iff (show Char.isAlpha '&' = false by decide),
    toUpper_eq_iff (show Char.isAlpha ' ' = false by decide), add_inCapitals]
  split_ifs <;> rfl

theorem extend_inCapitals : s.inCapitals.extend c.toUpper = (s.extend c).inCapitals := by
  simp only [extend, toUpper_eq_iff (show Char.isAlpha ':' = false by decide),
    toUpper_eq_iff (show Char.isAlpha ' ' = false by decide), add_inCapitals, flush_inCapitals,
    atRemark_inCapitals, isAlphanumeric_toUpper, glue_inCapitals]
  split_ifs <;> simp [inCapitals, flush]

theorem step_inCapitals : s.inCapitals.step c.toUpper = resultInCapitals inCapitals (s.step c) := by
  simp only [step, toUpper_eq_iff (show Char.isAlpha '\r' = false by decide),
    toUpper_eq_iff (show Char.isAlpha '"' = false by decide),
    toUpper_eq_iff (show Char.isAlpha '\'' = false by decide), add_inCapitals, flush_inCapitals,
    start_inCapitals, extend_inCapitals, inQuote_inCapitals, inChar_inCapitals, inComment_inCapitals,
    word_inCapitals, isEmpty_capital, length_capital]
  split_ifs <;> rfl

end Step

theorem feed_inCapitals (s : Splitter) (t : Text) :
    feed s.inCapitals (capital t) = resultInCapitals inCapitals (feed s t) := by
  induction t generalizing s with
  | nil => rfl
  | cons c t ih =>
    rw [capital_cons, feed, feed, step_inCapitals]
    cases s.step c with
    | error e => rfl
    | ok s' => exact ih s'

theorem finish_inCapitals (s : Splitter) :
    s.inCapitals.finish = resultInCapitals (List.map capital) s.finish := by
  simp only [finish, inQuote_inCapitals, word_inCapitals, isEmpty_capital]
  split_ifs <;> simp [resultInCapitals, Except.map, Except.mapError, Fault.inCapitals, inCapitals]

end Splitter

theorem splitLine_capital (line : Text) :
    splitLine (capital line) = resultInCapitals (List.map capital) (splitLine line) := by
  have hfeed := Splitter.feed_inCapitals {} (strip line)
  rw [splitLine, splitLine, strip, trimBoth_capital isBlank_toUpper, ← strip]
  exact (congrArg (· >>= _) hfeed).trans (resultInCapitals_bind Splitter.finish_inCapitals _)

namespace Token

def inCapitals : Token → Token
  | word t => word (capital t)
  | number n => number n
  | quote t => quote (capital t)
  | symbol t => symbol (capital t)
  | comment t => comment (capital t)
  | numericVar name => numericVar name
  | stringVar name => stringVar (capital name)
  | stringRef name => stringRef (capital name)
  | label t => label (capital t)
  | char t => char (capital t)

theorem isVariableDigit_toUpper (c : Char) : isVariableDigit c.toUpper = isVariableDigit c := by
  rw [isVariableDigit, isVariableDigit, isNumeric_toUpper, digitValue?_toUpper]
  split
  · next h => rw [toUpper_of_isNumeric h]
  · rfl

theorem bind_isVariableDigit_toUpper {c : Char} {t : Token} {e : Fault} :
    (isVariableDigit c.toUpper >>= fun b => if b then .ok t.inCapitals else .error e.inCapitals) =
      resultInCapitals inCapitals (isVariableDigit c >>= fun b => if b then .ok t else .error e) := by
  rw [isVariableDigit_toUpper, isVariableDigit]
  split
  · split
    · next d _ => cases h : (0 < d && d < 9 : Bool) <;> rfl
    · rfl
  · rfl

theorem capital_eq_concat {part front : Text} (hfront : front.any Char.isAlpha = false) :
    (∃ d, capital part = front ++ [d]) ↔ ∃ d, part = front ++ [d] := by
  induction front generalizing part with
  | nil =>
    cases part with
    | nil => simp
    | cons c part => simp [capital]
  | cons k front ih =>
    cases part with
    | nil => simp
    | cons c part =>
      rw [List.any_cons, Bool.or_eq_false_iff] at hfront
      simp only [capital_cons, List.cons_append, List.cons.injEq, exists_and_left, toUpper_eq_iff hfront.1,
        ih hfront.2]

theorem asStringVar_capital (part : Text) :
    asStringVar (capital part) = resultInCapitals inCapitals (asStringVar part) := by
  have hother (u : Text) (hu : ¬∃ c, u = ['$'] ++ [c]) : asStringVar u = .error (.malformed .string u) := by
    unfold asStringVar
    split
    · exact absurd ⟨_, rfl⟩ hu
    · rfl
  by_cases h : ∃ c, part = ['$'] ++ [c]
  · obtain ⟨c, rfl⟩ := h
    exact bind_isVariableDigit_toUpper (t := .stringVar ['$', c]) (e := .malformed .string ['$', c])
  · have hcapital := mt (capital_eq_concat rfl).mp h
    rw [hother part h, hother _ hcapital]
    rfl

theorem filter_capital (part : Text) : (capital part).filter (· != ' ') = capital (part.filter (· != ' ')) := by
  have hspace : ((· != ' ') ∘ Char.toUpper) = (· != ' ') := by
    funext c
    simp only [Function.comp_apply, bne, beq_eq_decide, toUpper_eq_iff (show Char.isAlpha ' ' = false by decide)]
  rw [capital, List.filter_map, hspace, ← capital]

theorem asStringRef_capital (part : Text) :
    asStringRef (capital part) = resultInCapitals inCapitals (asStringRef part) := by
  have hother (u : Text) (hu : ¬∃ c, u.filter (· != ' ') = ['&', '$'] ++ [c]) :
      asStringRef u = .error (.malformed .reference (u.filter (· != ' '))) := by
    unfold asStringRef
    dsimp only
    split
    · next c heq => exact absurd ⟨c, heq⟩ hu
    · rfl
  by_cases h : ∃ c, part.filter (· != ' ') = ['&', '$'] ++ [c]
  · obtain ⟨c, hc⟩ := h
    simp only [asStringRef, filter_capital, hc]
    exact bind_isVariableDigit_toUpper (t := .stringRef ['&', '$', c]) (e := .malformed .reference ['&', '$', c])
  · have hcapital := mt (capital_eq_concat rfl).mp h
    rw [← filter_capital] at hcapital
    rw [hother part h, hother _ hcapital, filter_capital]
    rfl

theorem asNumber_capital (part : Text) :
    asNumber (capital part) = resultInCapitals inCapitals (asNumber part) := by
  rw [asNumber, asNumber, Text.readInteger?_capital]
  cases Text.readInteger? part <;> rfl

theorem getLast?_capital (part : Text) : (capital part).getLast? = part.getLast?.map Char.toUpper := List.getLast?_map

theorem map_toUpper_eq_some_iff {k : Char} (hk : k.isAlpha = false) (o : Option Char) :
    o.map Char.toUpper = some k ↔ o = some k := by
  cases o with
  | none => simp
  | some c => simp [toUpper_eq_iff hk]

theorem asQuote_capital (part : Text) :
    asQuote (capital part) = resultInCapitals inCapitals (asQuote part) := by
  have hquote : Char.isAlpha '"' = false := by decide
  have hhead : (capital part).head? = part.head?.map Char.toUpper := List.head?_map
  simp only [asQuote, getLast?_capital, hhead, map_toUpper_eq_some_iff hquote]
  split <;> rfl

theorem asChar_capital (part : Text) : asChar (capital part) = resultInCapitals inCapitals (asChar part) := by
  have hquote : Char.isAlpha '\'' = false := by decide
  have hother (u : Text) (hu : ¬∃ c, u = ['\'', c, '\'']) : asChar u = .error (.malformed .character u) := by
    unfold asChar
    split
    · exact absurd ⟨_, rfl⟩ hu
    · rfl
  have hpattern : (∃ c, capital part = ['\'', c, '\'']) ↔ ∃ c, part = ['\'', c, '\''] := by
    rcases part with _ | ⟨a, _ | ⟨b, _ | ⟨c, t⟩⟩⟩ <;> simp [toUpper_eq_iff hquote]
    simp [capital]
  by_cases h : ∃ c, part = ['\'', c, '\'']
  · obtain ⟨c, rfl⟩ := h
    rfl
  · rw [hother part h, hother _ (mt hpattern.mp h)]
    rfl

theorem asSymbol_capital (part : Text) :
    asSymbol (capital part) = resultInCapitals inCapitals (asSymbol part) := by
  cases part <;> rfl

theorem asNumericVar_capital (part : Text) :
    asNumericVar (capital part) = resultInCapitals inCapitals (asNumericVar part) := by
  cases part with
  | nil => rfl
  | cons c part =>
    cases part with
    | nil =>
      simp only [capital_cons, capital_nil, asNumericVar, isLetter_toUpper, upper_cons, upperChar_toUpper]
      split <;> rfl
    | cons d part => rfl

theorem asWord_capital (part : Text) : asWord (capital part) = resultInCapitals inCapitals (asWord part) := by
  have hall : (capital part).all isLetter = part.all isLetter := by
    simp only [capital, List.all_map, Function.comp_def, isLetter_toUpper]
  rw [asWord, asWord, isEmpty_capital, hall]
  split <;> rfl

theorem decodeLettered_capital (part : Text) :
    decodeLettered (capital part) = resultInCapitals inCapitals (decodeLettered part) := by
  simp only [decodeLettered, length_capital, upper_capital, getLast?_capital,
    map_toUpper_eq_some_iff (show Char.isAlpha ':' = false by decide), asNumericVar_capital, asWord_capital]
  split_ifs <;> rfl

theorem decode_capital (part : Text) : decode (capital part) = resultInCapitals inCapitals (decode part) := by
  cases part with
  | nil => rfl
  | cons c t =>
    have hstringVar := asStringVar_capital (c :: t)
    have hnumber := asNumber_capital (c :: t)
    have hquote := asQuote_capital (c :: t)
    have hchar := asChar_capital (c :: t)
    have hlettered := decodeLettered_capital (c :: t)
    have hstringRef := asStringRef_capital (c :: t)
    have hsymbol := asSymbol_capital (c :: t)
    simp only [capital_cons] at hstringVar hnumber hquote hchar hlettered hstringRef hsymbol
    simp only [capital_cons, decode, toUpper_eq_iff (show Char.isAlpha '$' = false by decide),
      toUpper_eq_iff (show Char.isAlpha '"' = false by decide),
      toUpper_eq_iff (show Char.isAlpha '\'' = false by decide),
      toUpper_eq_iff (show Char.isAlpha '&' = false by decide), isNumeric_toUpper, isLetter_toUpper, hstringVar,
      hnumber, hquote, hchar, hlettered, hstringRef, hsymbol]
    split_ifs <;> rfl

theorem decodeAll_capital (parts : List Text) :
    decodeAll (parts.map capital) = resultInCapitals (List.map inCapitals) (decodeAll parts) := by
  induction parts with
  | nil => rfl
  | cons part parts ih =>
    rw [List.map_cons, decodeAll, decodeAll, decode_capital, ih]
    cases decode part with
    | error e => rfl
    | ok t => cases decodeAll parts <;> rfl

theorem parse_capital (line : Text) :
    parse (capital line) = resultInCapitals (List.map inCapitals) (parse line) := by
  have hstrip : strip (capital line) = capital (strip line) := trimBoth_capital isBlank_toUpper line
  unfold parse
  rw [splitLine_capital, hstrip]
  apply resultInCapitals_bind
  intro parts
  rw [decodeAll_capital]
  apply resultInCapitals_bind
  intro tokens
  have hrest : (capital (strip line)).drop 4 = capital ((strip line).drop 4) := List.map_drop.symm
  rw [hrest]
  rcases tokens with _ | ⟨t, ts⟩
  · rfl
  · cases t <;> rfl

/-- Lines with the same letters are both read or both refused, for the same reason. -/
theorem parse_sameLetters {line line' : Text} (h : capital line = capital line') :
    (∃ tokens tokens', parse line = .ok tokens ∧ parse line' = .ok tokens') ∨
      ∃ e e', parse line = .error e ∧ parse line' = .error e' ∧ e.inCapitals = e'.inCapitals := by
  have hcapitals : resultInCapitals (List.map inCapitals) (parse line) =
      resultInCapitals (List.map inCapitals) (parse line') := by
    rw [← parse_capital, ← parse_capital, h]
  cases hleft : parse line with
  | ok tokens =>
    cases hright : parse line' with
    | ok tokens' => exact .inl ⟨tokens, tokens', rfl, rfl⟩
    | error e' => simp [hleft, hright, resultInCapitals, Except.map, Except.mapError] at hcapitals
  | error e =>
    cases hright : parse line' with
    | ok tokens' => simp [hleft, hright, resultInCapitals, Except.map, Except.mapError] at hcapitals
    | error e' =>
      rw [hleft, hright] at hcapitals
      exact .inr ⟨e, e', rfl, rfl, Except.error.inj hcapitals⟩

end Token

end BasicMachine
