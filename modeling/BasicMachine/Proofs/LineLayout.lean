import BasicMachine.Proofs.TokenSpelling

/-! Lines of canonical tokens. The splitter is clean again behind every token, so spaces between the
tokens and blanks around the line do not matter, and parsing such a line gives its tokens back. -/
namespace BasicMachine
open Token

theorem feed_append {s s' : Splitter} {xs : Text} (h : feed s xs = .ok s') (ys : Text) :
    feed s (xs ++ ys) = feed s' ys := by
  induction xs generalizing s with
  | nil =>
    cases h
    rfl
  | cons c xs ih =>
    cases hs : s.step c with
    | ok s₁ =>
      simp only [List.cons_append, feed, hs] at h ⊢
      exact ih h
    | error e => simp [feed, hs] at h

theorem feed_cons {s s' : Splitter} {c : Char} (h : s.step c = .ok s') (xs : Text) :
    feed s (c :: xs) = feed s' xs := by
  simp [feed, h]

theorem feed_alphanumeric {t : Text} (h : ∀ c ∈ t, isAlphanumeric c = true) (parts : List Text)
    {w : Text} (hw : w ≠ []) :
    feed { parts := parts, word := w } t = .ok { parts := parts, word := w ++ t } := by
  induction t generalizing w with
  | nil => simp [feed]
  | cons c t ih =>
    have hc : isAlphanumeric c = true := h c (by simp)
    have ne (d : Char) (hd : isAlphanumeric d = false) : c ≠ d := by
      rintro rfl
      simp [hc] at hd
    have hstep : Splitter.step { parts := parts, word := w } c =
        .ok { parts := parts, word := w ++ [c] } := by
      simp [Splitter.step, Splitter.extend, Splitter.add, ne '\r' rfl, ne '"' rfl, ne '\'' rfl,
        ne ' ' rfl, hw, hc]
    rw [feed_cons hstep, ih (fun d hd => h d (by simp [hd])) (by simp)]
    simp

theorem step_first {c : Char} (h : c ∉ ['\r', '"', '\'', '&', ' ']) (parts : List Text) :
    Splitter.step { parts := parts } c = .ok { parts := parts, word := [c] } := by
  simp only [List.mem_cons, List.not_mem_nil, or_false, not_or] at h
  simp [Splitter.step, Splitter.start, Splitter.add, h]

theorem feed_word {c : Char} {t : Text} (first : isAlphanumeric c = true)
    (others : ∀ d ∈ t, isAlphanumeric d = true) (parts : List Text) :
    feed { parts := parts } (c :: t) = .ok { parts := parts, word := c :: t } := by
  have hc : c ∉ ['\r', '"', '\'', '&', ' '] := by
    intro hm
    simp only [List.mem_cons, List.not_mem_nil, or_false] at hm
    rcases hm with rfl | rfl | rfl | rfl | rfl <;> exact absurd first (by decide)
  rw [feed_cons (step_first hc parts), feed_alphanumeric others parts (by simp)]
  rfl

theorem feed_label {c : Char} {t : Text} (first : c.isAlpha = true)
    (others : ∀ d ∈ t, isAlphanumeric d = true) (parts : List Text) :
    feed { parts := parts } (c :: t ++ [':']) = .ok { parts := parts ++ [c :: t ++ [':']] } := by
  have hc : isAlphanumeric c = true := by simp [isAlphanumeric, isLetter_of_isAlpha first]
  rw [feed_append (feed_word hc others parts)]
  rfl

theorem feed_quoted {t : Text} (inner : '"' ∉ t) (line : '\r' ∉ t) (parts : List Text) (w : Text) :
    feed { parts := parts, word := w, inQuote := true } t =
      .ok { parts := parts, word := w ++ t, inQuote := true } := by
  induction t generalizing w with
  | nil => simp [feed]
  | cons c t ih =>
    simp only [List.mem_cons, not_or] at inner line
    have hstep : Splitter.step { parts := parts, word := w, inQuote := true } c =
        .ok { parts := parts, word := w ++ [c], inQuote := true } := by
      simp [Splitter.step, Splitter.add, Ne.symm inner.1, Ne.symm line.1]
    rw [feed_cons hstep, ih inner.2 line.2]
    simp

theorem feed_quote {t : Text} (inner : '"' ∉ t) (line : '\r' ∉ t) (parts : List Text) :
    feed { parts := parts } ('"' :: t ++ ['"']) = .ok { parts := parts ++ ['"' :: t ++ ['"']] } := by
  have hopen : Splitter.step { parts := parts } '"' =
      .ok { parts := parts, word := ['"'], inQuote := true } := rfl
  rw [List.cons_append, feed_cons hopen, feed_append (feed_quoted inner line parts ['"'])]
  rfl

theorem feed_char {c : Char} (single : c ≠ '\'') (double : c ≠ '"') (line : c ≠ '\r')
    (parts : List Text) :
    feed { parts := parts } ['\'', c, '\''] = .ok { parts := parts ++ [['\'', c, '\'']] } := by
  have hopen : Splitter.step { parts := parts } '\'' =
      .ok { parts := parts, word := ['\''], inChar := true } := rfl
  have hstep : Splitter.step { parts := parts, word := ['\''], inChar := true } c =
      .ok { parts := parts, word := ['\'', c], inChar := true } := by
    simp [Splitter.step, Splitter.add, single, double, line]
  rw [feed_cons hopen, feed_cons hstep]
  rfl

/-- The word `REM` in any letter case. -/
def Token.isRemark : Token → Bool
  | .word t => upper t == ['R', 'E', 'M']
  | _ => false

private theorem upper_ne_remark {c : Char} (ha : c.toNat < 128) (hc : c.isAlpha = false) (t : Text) :
    upper (c :: t) ≠ ['R', 'E', 'M'] := by
  have hl : ¬ (65 ≤ c.toNat ∧ c.toNat ≤ 90 ∨ 97 ≤ c.toNat ∧ c.toNat ≤ 122) := by
    rw [← isAlpha_iff, hc]
    simp
  rw [upper_cons, upperChar_ascii ha, toUpper_of_not_lower (by omega)]
  intro h
  have hr : c = 'R' := (List.cons.inj h).1
  rw [hr] at hc
  exact absurd hc (by decide)

private theorem isAlphanumeric_stringDigits : ∀ d ∈ stringDigits, isAlphanumeric d = true :=
  List.all_eq_true.mp (by decide)

/-- The splitter has either closed the word behind a canonical spelling or still holds the spelling as
its word, and then only the word `REM` can begin a comment. -/
theorem Token.Canonical.feed_spelling {token : Token} (h : Canonical token) (parts : List Text) :
    feed { parts := parts } token.spelling = .ok { parts := parts ++ [token.spelling] } ∨
      feed { parts := parts } token.spelling = .ok { parts := parts, word := token.spelling } ∧
        token.spelling ≠ [] ∧ (upper token.spelling = ['R', 'E', 'M'] → token.isRemark = true) := by
  cases h with
  | word t long letters =>
    right
    cases t with
    | nil => simp at long
    | cons c t =>
      have hc (d : Char) (hd : d ∈ c :: t) : isAlphanumeric d = true := by
        simp [isAlphanumeric, isLetter_of_isAlpha (letters d hd)]
      refine ⟨feed_word (hc c (by simp)) (fun d hd => hc d (by simp [hd])) parts, ?_, ?_⟩
      · simp [spelling, text]
      · intro hr
        exact beq_iff_eq.mpr hr
  | number n short =>
    right
    have hd (d : Char) (hd : d ∈ Text.ofNat n) : d.isDigit = true :=
      Nat.isDigit_of_mem_toDigits (by decide) (by decide) hd
    change feed _ (Text.ofNat n) = .ok { parts := parts, word := Text.ofNat n } ∧
      Text.ofNat n ≠ [] ∧ (upper (Text.ofNat n) = _ → _)
    cases hn : Text.ofNat n with
    | nil => exact absurd hn Nat.toDigits_ne_nil
    | cons c t =>
      rw [hn] at hd
      have ha (d : Char) (hm : d ∈ c :: t) : isAlphanumeric d = true := by
        simp [isAlphanumeric, isNumeric_of_isDigit (hd d hm)]
      have hb := isDigit_iff.mp (hd c (by simp))
      have hc : c.isAlpha = false := by
        rw [Bool.eq_false_iff, ne_eq, isAlpha_iff]
        omega
      refine ⟨feed_word (ha c (by simp)) (fun d hm => ha d (by simp [hm])) parts, by simp, ?_⟩
      exact fun hr => absurd hr (upper_ne_remark (by omega) hc t)
  | quote t inner line => exact .inl (feed_quote inner line parts)
  | char c single double line => exact .inl (feed_char single double line parts)
  | numericVar c capital =>
    right
    have ha : isAlphanumeric c = true := by
      simp [isAlphanumeric, isLetter_of_isAlpha (c := c) (by simp [Char.isAlpha, capital])]
    have hb := isUpper_iff.mp capital
    refine ⟨feed_word ha (by simp) parts, by simp [spelling, text], ?_⟩
    simp [spelling, text, upperChar_ascii (show c.toNat < 128 by omega)]
  | stringVar d digit =>
    right
    have ha := isAlphanumeric_stringDigits d digit
    refine ⟨?_, by simp [spelling, text], fun hr => absurd hr (upper_ne_remark (by decide) rfl _)⟩
    change feed { parts := parts } ['$', d] = _
    rw [feed_cons (step_first (by decide) parts), feed_alphanumeric (by simpa using ha) parts (by simp)]
    rfl
  | stringRef d digit =>
    right
    have ha := isAlphanumeric_stringDigits d digit
    refine ⟨?_, by simp [spelling, text], fun hr => absurd hr (upper_ne_remark (by decide) rfl _)⟩
    have hamp : feed { parts := parts } ['&', '$'] = .ok { parts := parts, word := ['&', '$'] } := rfl
    change feed { parts := parts } (['&', '$'] ++ [d]) = _
    rw [feed_append hamp, feed_alphanumeric (by simpa using ha) parts (by simp)]
    rfl
  | label c t first others => exact .inl (feed_label first others parts)
  | symbol c kind =>
    right
    obtain ⟨hb, _, hdouble, hsingle, _, hamp⟩ := isSymbolChar_iff.mp kind
    have hfirst : c ∉ ['\r', '"', '\'', '&', ' '] := by
      simp only [List.mem_cons, List.not_mem_nil, or_false, not_or]
      refine ⟨?_, hdouble, hsingle, hamp, ?_⟩ <;> (rintro rfl; revert hb; decide)
    refine ⟨feed_cons (step_first hfirst parts) [], by simp [spelling, text], ?_⟩
    simp [spelling, text, upperChar_ascii (show c.toNat < 128 by omega)]

/-- A space closes an open word, unless the word begins a comment. -/
theorem feed_space_open {parts : List Text} {w : Text} (hw : w ≠ [])
    (hr : parts = [] → upper w ≠ ['R', 'E', 'M']) :
    feed { parts := parts, word := w } [' '] = .ok { parts := parts ++ [w] } := by
  have hat : Splitter.atRemark { parts := parts, word := w } = false := by
    by_cases hp : parts = []
    · simp [Splitter.atRemark, hr hp]
    · simp [Splitter.atRemark, hp]
  have hstep : Splitter.step { parts := parts, word := w } ' ' = .ok { parts := parts ++ [w] } := by
    simp [Splitter.step, Splitter.extend, Splitter.flush, hw, hat]
  rw [feed_cons hstep]
  rfl

theorem feed_spaces (parts : List Text) (n : Nat) :
    feed { parts := parts } (List.replicate n ' ') = .ok { parts := parts } := by
  induction n with
  | zero => rfl
  | succ n ih =>
    rw [List.replicate_succ, feed_cons (rfl : Splitter.step { parts := parts } ' ' = _)]
    exact ih

namespace Token

theorem Canonical.feed_space {token : Token} (h : Canonical token) {parts : List Text}
    (hr : parts = [] → token.isRemark = false) :
    feed { parts := parts } (token.spelling ++ [' ']) =
      .ok { parts := parts ++ [token.spelling] } := by
  rcases h.feed_spelling parts with hc | ⟨ho, hne, hrem⟩
  · rw [feed_append hc]
    exact feed_spaces _ 1
  · rw [feed_append ho]
    apply feed_space_open hne
    intro hp hu
    simp [hr hp] at hrem
    exact hrem hu

theorem Canonical.feed_end {token : Token} (h : Canonical token) (parts : List Text) :
    ∃ s, feed { parts := parts } token.spelling = .ok s ∧
      s.finish = .ok (parts ++ [token.spelling]) := by
  rcases h.feed_spelling parts with hc | ⟨ho, hne, _⟩
  · exact ⟨_, hc, by simp [Splitter.finish]⟩
  · exact ⟨_, ho, by simp [Splitter.finish, hne]⟩

/-- The texts in order, with one or more spaces between neighbours. -/
inductive Spaced : List Text → Text → Prop
  | nil : Spaced [] []
  | one (t : Text) : Spaced [t] t
  | more (t : Text) (n : Nat) {u line : Text} {us : List Text} (rest : Spaced (u :: us) line) :
    Spaced (t :: u :: us) (t ++ List.replicate (n + 1) ' ' ++ line)

/-- The splitter finds the spellings of canonical tokens that are written with spaces between. -/
theorem splits_spaced {tokens : List Token} {line : Text} (hc : ∀ t ∈ tokens, Canonical t)
    (hl : Spaced (tokens.map spelling) line) (parts : List Text)
    (hr : parts = [] → ∀ t ∈ tokens.head?, t.isRemark = false) :
    ∃ s, feed { parts := parts } line = .ok s ∧ s.finish = .ok (parts ++ tokens.map spelling) := by
  induction tokens generalizing line parts with
  | nil =>
    cases hl
    exact ⟨_, rfl, by simp [Splitter.finish]⟩
  | cons token tokens ih =>
    have ht : Canonical token := hc token (by simp)
    cases tokens with
    | nil =>
      cases hl
      exact ht.feed_end parts
    | cons next tokens =>
      obtain _ | _ | ⟨_, n, rest⟩ := hl
      have hspace := ht.feed_space fun hp => hr hp token (by simp)
      obtain ⟨s, hs, hf⟩ := ih (fun t hm => hc t (by simp [hm])) rest (parts ++ [token.spelling])
        (by simp)
      refine ⟨s, ?_, by simpa using hf⟩
      rw [List.replicate_succ, List.append_assoc, List.cons_append, List.append_cons,
        feed_append hspace, feed_append (feed_spaces _ n)]
      exact hs

/-- A text that neither begins nor ends with a blank. -/
def Solid (t : Text) : Prop :=
  (∀ c ∈ t.head?, isBlank c = false) ∧ ∀ c ∈ t.getLast?, isBlank c = false

theorem solid_of_visible {t : Text} (h : ∀ c ∈ t, 33 ≤ c.toNat ∧ c.toNat ≤ 126) : Solid t := by
  constructor
  · intro c hc
    have hb := h c (List.mem_of_head? hc)
    exact isBlank_of_visible hb.1 hb.2
  · intro c hc
    have hb := h c (List.mem_of_getLast? hc)
    exact isBlank_of_visible hb.1 hb.2

theorem solid_between {c d : Char} (hc : isBlank c = false) (hd : isBlank d = false) (t : Text) :
    Solid (c :: t ++ [d]) := by
  constructor
  · simpa using hc
  · rw [List.getLast?_concat]
    simpa using hd

theorem Canonical.solid {token : Token} (h : Canonical token) : Solid token.spelling := by
  cases h with
  | word t long letters =>
    apply solid_of_visible
    intro c hc
    have := isAlpha_iff.mp (letters c hc)
    omega
  | number n short =>
    apply solid_of_visible
    intro c hc
    have := isDigit_iff.mp (Nat.isDigit_of_mem_toDigits (by decide) (by decide) hc)
    omega
  | quote t inner line => exact solid_between rfl rfl t
  | char c single double line => exact solid_between rfl rfl [c]
  | numericVar c capital =>
    apply solid_of_visible
    have := isUpper_iff.mp capital
    simp [spelling, text]
    omega
  | stringVar d digit =>
    apply solid_of_visible
    have := stringDigits_range d digit
    refine List.forall_mem_cons.mpr ⟨by decide, ?_⟩
    simp
    omega
  | stringRef d digit =>
    apply solid_of_visible
    have := stringDigits_range d digit
    refine List.forall_mem_cons.mpr ⟨by decide, List.forall_mem_cons.mpr ⟨by decide, ?_⟩⟩
    simp
    omega
  | label c t first others =>
    have hb := isAlpha_iff.mp first
    exact solid_between (isBlank_of_visible (by omega) (by omega)) rfl t
  | symbol c kind =>
    apply solid_of_visible
    simpa [spelling, text] using (isSymbolChar_iff.mp kind).1

theorem Canonical.spelling_ne_nil {token : Token} (h : Canonical token) : token.spelling ≠ [] := by
  cases h with
  | word t long letters =>
    rintro rfl
    simp at long
  | number n short => exact Nat.toDigits_ne_nil
  | _ => simp [spelling, text]

theorem Spaced.solid {ts : List Text} {line : Text} (h : Spaced ts line)
    (hs : ∀ t ∈ ts, t ≠ [] ∧ Solid t) : (ts ≠ [] → line ≠ []) ∧ Solid line := by
  induction h with
  | nil => exact ⟨fun h => absurd rfl h, by simp, by simp⟩
  | one t => exact ⟨fun _ => (hs t (by simp)).1, (hs t (by simp)).2⟩
  | more t n rest ih =>
    obtain ⟨hne, hhead, _⟩ := hs t (by simp)
    obtain ⟨hline, _, hlast⟩ := ih fun u hu => hs u (by simp [hu])
    refine ⟨fun _ => by simp [hne], ?_, ?_⟩
    · cases t with
      | nil => exact absurd rfl hne
      | cons c t => simpa using hhead
    · rw [List.getLast?_append, Option.or_of_isSome (by simpa using hline (by simp))]
      exact hlast

theorem strip_around {lead body trail : Text} (hl : ∀ c ∈ lead, isBlank c = true)
    (ht : ∀ c ∈ trail, isBlank c = true) (hb : Solid body) :
    strip (lead ++ body ++ trail) = body := by
  have htrail : trail.dropWhile isBlank = [] := by
    simpa using @List.dropWhile_append_of_pos _ _ _ [] ht
  have hback : (body ++ trail).reverse.dropWhile isBlank = body.reverse := by
    rw [List.reverse_append, List.dropWhile_append_of_pos (by simpa using ht)]
    exact dropWhile_of_head (by simpa only [List.head?_reverse] using hb.2)
  rw [strip, trimBoth, List.append_assoc, List.dropWhile_append_of_pos hl]
  cases body with
  | nil => simp [htrail]
  | cons c body =>
    rw [dropWhile_of_head (t := c :: body ++ trail) (by simpa using hb.1), hback,
      List.reverse_reverse]

theorem decodeAll_spelling {tokens : List Token} (hc : ∀ t ∈ tokens, Canonical t) :
    decodeAll (tokens.map spelling) = .ok tokens := by
  induction tokens with
  | nil => rfl
  | cons token tokens ih =>
    rw [List.map_cons, decodeAll, (hc token (by simp)).decode_spelling,
      ih fun t ht => hc t (by simp [ht])]
    rfl

/-- A line of canonical tokens is split into their spellings, whatever blanks stand around it. -/
theorem splitLine_spaced {tokens : List Token} (hc : ∀ t ∈ tokens, Canonical t)
    (hr : ∀ t ∈ tokens.head?, t.isRemark = false) {lead body trail : Text}
    (hl : ∀ c ∈ lead, isBlank c = true) (ht : ∀ c ∈ trail, isBlank c = true)
    (hb : Spaced (tokens.map spelling) body) :
    splitLine (lead ++ body ++ trail) = .ok (tokens.map spelling) := by
  have hsolid : Solid body := by
    refine (hb.solid fun w hw => ?_).2
    obtain ⟨t, hm, rfl⟩ := List.mem_map.mp hw
    exact ⟨(hc t hm).spelling_ne_nil, (hc t hm).solid⟩
  obtain ⟨s, hs, hf⟩ := splits_spaced hc hb [] fun _ => hr
  rw [splitLine, strip_around hl ht hsolid, hs]
  exact hf

theorem parse_of_splitLine {tokens : List Token} {line : Text} (hc : ∀ t ∈ tokens, Canonical t)
    (hs : splitLine line = .ok (tokens.map spelling)) : parse line = .ok tokens := by
  rw [parse, hs]
  change decodeAll (tokens.map spelling) >>= _ = _
  rw [decodeAll_spelling hc]
  cases tokens with
  | nil => rfl
  | cons token tokens => cases hc token (by simp) <;> rfl

/-- Parsing undoes writing: canonical tokens with one or more spaces between them and any blanks
around are read back, unless the first of them begins a comment. -/
theorem parse_written (tokens : List Token) (hc : ∀ t ∈ tokens, Canonical t)
    (hr : ∀ t ∈ tokens.head?, t.isRemark = false) (lead body trail : Text)
    (hl : ∀ c ∈ lead, isBlank c = true) (ht : ∀ c ∈ trail, isBlank c = true)
    (hb : Spaced (tokens.map spelling) body) :
    parse (lead ++ body ++ trail) = .ok tokens :=
  parse_of_splitLine hc (splitLine_spaced hc hr hl ht hb)

/-- All nine kinds, and the word `REM` where it does not begin a comment. -/
def everyKind : List Token :=
  [.label "x1:".toList, .word "PRINT".toList, .number 42, .quote "\"it's\"".toList,
    .char "' '".toList, .numericVar "A".toList, .stringVar "$1".toList, .stringRef "&$8".toList,
    .symbol "+".toList, .word "REM".toList]

theorem parse_written_everyKind :
    parse (['\t', ' '] ++ "x1:   PRINT 42 \"it's\" ' ' A $1  &$8 + REM".toList ++
      [' ', '\r', '\n']) = .ok everyKind := by
  have hb : Spaced (everyKind.map spelling)
      "x1:   PRINT 42 \"it's\" ' ' A $1  &$8 + REM".toList :=
    .more _ 2 (.more _ 0 (.more _ 0 (.more _ 0 (.more _ 0 (.more _ 0 (.more _ 1 (.more _ 0
      (.more _ 0 (.one _)))))))))
  have short : 42 < 10 ^ Text.digitLimit :=
    Nat.lt_of_lt_of_le (by decide : 42 < 10 ^ 2) (Nat.pow_le_pow_right (by decide) (by decide))
  refine parse_written everyKind ?_ (by decide) _ _ _ (List.all_eq_true.mp (by decide))
    (List.all_eq_true.mp (by decide)) hb
  simp only [everyKind, List.forall_mem_cons]
  exact ⟨.label 'x' ['1'] (by decide) (List.all_eq_true.mp (by decide)),
    .word _ (by decide) (List.all_eq_true.mp (by decide)),
    .number 42 short, .quote "it's".toList (by decide) (by decide),
    .char ' ' (by decide) (by decide) (by decide), .numericVar _ (by decide),
    .stringVar _ (by decide), .stringRef _ (by decide), .symbol _ (by decide),
    .word _ (by decide) (List.all_eq_true.mp (by decide)), by simp⟩

end Token
end BasicMachine
