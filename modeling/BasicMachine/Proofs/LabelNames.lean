import BasicMachine.Proofs.ArgumentReading
import BasicMachine.Proofs.Remarks

/-! The names of labels. A line that defines a label is a name with a colon behind it and blanks in front of
it, and a name is a letter with letters and digits behind it. Without the colon the same name is read in
another way: a letter alone is a variable, and a name with a digit is no word. -/
namespace BasicMachine

def blankCodes : List Nat := blankRanges.flatMap fun r => List.range' r.1 (r.2 - r.1 + 1)

private theorem blankCodes_not_alphanumeric : ∀ n ∈ blankCodes, n < 48 ∨
    128 ≤ n ∧ inRanges letterRanges n = false ∧ inRanges numericRanges n = false := by
  decide +kernel

theorem mem_blankCodes {c : Char} (h : isBlank c = true) : c.toNat ∈ blankCodes := by
  obtain ⟨r, hr, hfirst, hlast⟩ := exists_of_inRanges h
  exact List.mem_flatMap.mpr ⟨r, hr, List.mem_range'_1.mpr ⟨hfirst, by omega⟩⟩

theorem isAlphanumeric_of_isBlank {c : Char} (h : isBlank c = true) : isAlphanumeric c = false := by
  rcases blankCodes_not_alphanumeric _ (mem_blankCodes h) with hlow | ⟨hhigh, hletter, hnumber⟩
  · have hascii : c.toNat < 128 := by omega
    have halpha : c.isAlpha = false := by
      rw [Bool.eq_false_iff, ne_eq, isAlpha_iff]
      omega
    have hdigit : c.isDigit = false := by
      rw [Bool.eq_false_iff, ne_eq, isDigit_iff]
      omega
    simp [isAlphanumeric, isLetter, isNumeric, hascii, halpha, hdigit]
  · simp [isAlphanumeric, isLetter, isNumeric, Nat.not_lt.mpr hhigh, hletter, hnumber]

theorem isBlank_of_isAlphanumeric {c : Char} (h : isAlphanumeric c = true) : isBlank c = false := by
  rw [Bool.eq_false_iff]
  intro hblank
  simp [isAlphanumeric_of_isBlank hblank] at h

theorem decode_of_isBlank {c : Char} (h : isBlank c = true) (t : Text) :
    Token.decode (c :: t) = .ok (.symbol [c]) := by
  have hne (d : Char) (hd : isBlank d = false) : c ≠ d := by
    rintro rfl
    simp [hd] at h
  have halpha := isAlphanumeric_of_isBlank h
  simp only [isAlphanumeric, Bool.or_eq_false_iff] at halpha
  simp [Token.decode, hne '$' (by decide), hne '"' (by decide), hne '\'' (by decide), hne '&' (by decide),
    halpha, Token.asSymbol]

namespace Splitter

theorem Step.chars_eq {s s' : Splitter} {c : Char} (h : Step s c s') (hc : c ≠ '\r' ∧ c ≠ ' ') :
    s'.chars = s.chars ++ [c] := by
  cases h with
  | skip char => exact absurd char (not_or.mpr hc)
  | space plain ne apart char code => exact absurd char hc.2
  | _ => simp [chars, add, flush]

theorem chars_prefix_feed {s s' : Splitter} {t : Text} (h : feed s t = .ok s') : s.chars <+: s'.chars := by
  refine feed_keeps (P := fun s₁ => s.chars <+: s₁.chars) ?_ h (List.prefix_refl _)
  intro s₁ c s₂ hstep hs
  rcases hstep.chars_cases with heq | heq
  · rwa [heq]
  · rw [heq]
    exact hs.trans (List.prefix_append _ _)

theorem word_begins {s : Splitter} {c : Char} {t : Text} (h : feed {} (c :: t) = .ok s)
    (hparts : s.parts = []) (hc : c ≠ '\r' ∧ c ≠ ' ') : ∃ u, s.word = c :: u := by
  cases hstep : Splitter.step {} c with
  | error e => simp [feed, hstep] at h
  | ok s₁ =>
    rw [feed_cons hstep] at h
    obtain ⟨u, hu⟩ := chars_prefix_feed h
    rw [(step_cases hstep).chars_eq hc] at hu
    exact ⟨u, by simpa [chars, hparts] using hu.symm⟩

theorem literal_kept_feed {s s' : Splitter} {t : Text} (h : feed s t = .ok s') (hs : s.inChar = true) :
    s'.parts ≠ [] ∨ s'.inChar = true := by
  refine feed_keeps (P := fun s => s.parts ≠ [] ∨ s.inChar = true) ?_ h (.inr hs)
  intro s₁ c s₂ hstep hs₁
  cases hstep with
  | openChar plain char => simp [add]
  | _ => simp_all [add, flush, Plain.free]

theorem feed_concat_eq_ok {s s' : Splitter} {t : Text} {c : Char} (h : feed s (t ++ [c]) = .ok s') :
    ∃ s₀, feed s t = .ok s₀ ∧ Step s₀ c s' := by
  cases ht : feed s t with
  | error e =>
    exfalso
    induction t generalizing s with
    | nil => cases ht
    | cons d t ih =>
      cases hd : s.step d with
      | error e => simp [feed, hd] at h
      | ok s₁ =>
        rw [List.cons_append, feed_cons hd] at h
        rw [feed_cons hd] at ht
        exact ih h ht
  | ok s₀ =>
    rw [feed_append ht] at h
    cases hc : s₀.step c with
    | error e => simp [feed, hc] at h
    | ok s₁ =>
      simp only [feed, hc, Except.ok.injEq] at h
      exact ⟨s₀, rfl, h ▸ step_cases hc⟩

/-- Nothing is finished yet, and the word goes on as code. -/
structure OnePart (s : Splitter) : Prop where
  parts : s.parts = []
  code : s.inComment = false
  unquoted : s.inQuote = false

/-- What has begun besides the open word lasts to the end of the line. -/
theorem onePart_of_feed {s s' : Splitter} {t : Text} (h : feed s t = .ok s') (hs : s'.OnePart) : s.OnePart := by
  by_contra hnot
  refine feed_keeps (P := fun s => ¬s.OnePart) ?_ h hnot hs
  intro s₁ c s₂ hstep hnot hone
  refine hnot ⟨?_, ?_, ?_⟩
  · by_contra hparts
    obtain ⟨p, hp⟩ := List.exists_mem_of_ne_nil _ hparts
    exact List.ne_nil_of_mem (hstep.parts_subset p hp) hone.parts
  · by_contra hcomment
    simpa [hone.code] using hstep.inComment_mono (by simpa using hcomment)
  · have hparts := hone.parts
    have hquote := hone.unquoted
    cases hstep <;> simp_all [add, flush, Plain.unquoted]

/-- Before the colon that ends the only part of a line, the part was the open word. -/
theorem onePart_before_colon {s s' : Splitter} {c : Char} {t : Text} (h : Step s ':' s')
    (hcode : s'.inComment = false) (hfinish : s'.finish = .ok [c :: t]) (hc : c ≠ ':') :
    s.OnePart ∧ c :: t = s.word ++ [':'] ∧ (s.inChar = true → s.word.length ≤ 2) := by
  have hend : s'.inQuote = false ∧
      (if s'.word.isEmpty then s'.parts else s'.parts ++ [s'.word]) = [c :: t] := by
    unfold finish at hfinish
    split at hfinish
    · cases hfinish
    · next hquote => exact ⟨by simpa using hquote, Except.ok.inj hfinish⟩
  obtain ⟨hquote, hend⟩ := hend
  have honly {w : Text} (hw : s.parts ++ [w] = [c :: t]) : s.parts = [] ∧ c :: t = w := by
    obtain ⟨hparts, hword⟩ := List.append_inj' (hw.trans (List.nil_append _).symm) rfl
    exact ⟨hparts, (List.singleton_inj.mp hword).symm⟩
  cases h with
  | skip char => exact absurd char (by decide)
  | remark on => simp [add, on] at hcode
  | openQuote _ _ char => exact absurd char (by decide)
  | closeQuote _ _ char => exact absurd char (by decide)
  | quoted _ quoted _ => simp [add, quoted] at hquote
  | openChar _ char => exact absurd char (by decide)
  | closeChar _ _ char => exact absurd char (by decide)
  | inChar code unquoted literal short char =>
    obtain ⟨hparts, hword⟩ := honly (by simpa [add] using hend)
    exact ⟨⟨hparts, code, unquoted⟩, hword, fun _ => short⟩
  | first plain empty char =>
    obtain ⟨-, hword⟩ := honly (w := [':']) (by simpa [add, empty] using hend)
    exact absurd (List.cons.inj hword).1 hc
  | firstRef _ _ char => exact absurd char (by decide)
  | beginRemark _ char _ => exact absurd char (by decide)
  | space _ _ _ char _ => exact absurd char (by decide)
  | more plain ne char taken =>
    obtain ⟨hparts, hword⟩ := honly (by simpa [add] using hend)
    exact ⟨⟨hparts, plain.code, plain.unquoted⟩, hword, by simp [plain.free]⟩
  | colon plain ne apart char =>
    obtain ⟨hparts, hword⟩ := honly (by simpa [add, flush] using hend)
    exact ⟨⟨hparts, plain.code, plain.unquoted⟩, hword, by simp [plain.free]⟩
  | symbol _ _ _ char _ => exact absurd char (by decide)

/-- Behind a word a character that is neither alphanumeric nor an apostrophe ends it, or begins a comment or a
quote. -/
theorem not_onePart_of_step {v : Text} {c : Char} {s : Splitter} (hv : v ≠ [])
    (h : step { word := v } c = .ok s) (hreturn : c ≠ '\r') (hliteral : c ≠ '\'')
    (hother : ¬isAlphanumeric c = true) : ¬s.OnePart := by
  rintro ⟨hparts, hcode, hquote⟩
  by_cases hspace : c = ' '
  · subst hspace
    by_cases hremark : upper v = ['R', 'E', 'M']
    · simp [step, extend, atRemark, hv, hremark] at h
      simp [← h] at hcode
    · have hflush := feed_space_open hv fun _ : ([] : List Text) = [] => hremark
      simp only [feed, h, Except.ok.injEq] at hflush
      simp [hflush] at hparts
  cases step_cases h with
  | skip char => exact absurd char (not_or.mpr ⟨hreturn, hspace⟩)
  | remark on => cases on
  | openQuote => cases hquote
  | closeQuote code quoted => cases quoted
  | quoted code quoted => cases quoted
  | openChar plain char => exact hliteral char
  | closeChar code unquoted char => exact hliteral char
  | inChar code unquoted literal => cases literal
  | first plain empty => exact hv empty
  | firstRef plain empty => exact hv empty
  | beginRemark plain char => exact hspace char
  | space plain ne apart char => exact hspace char
  | more plain ne char taken => exact taken.elim hother (by simp)
  | colon => simp [flush] at hparts
  | symbol => simp at hparts

/-- A word that has not ended has gone on with alphanumeric characters, or up to an apostrophe. -/
theorem open_word_cases {v t : Text} {s : Splitter} (hv : v ≠ []) (ht : '\r' ∉ t)
    (h : feed { word := v } t = .ok s) (hs : s.OnePart) :
    (∀ d ∈ t, isAlphanumeric d = true) ∨
      ∃ u rest, t = u ++ '\'' :: rest ∧ (∀ d ∈ u, isAlphanumeric d = true) := by
  induction t generalizing v with
  | nil => exact .inl (by simp)
  | cons c t ih =>
    obtain ⟨hc, ht⟩ := not_or.mp (List.mem_cons.not.mp ht)
    by_cases halpha : isAlphanumeric c = true
    · have hword : feed { word := v } [c] = .ok { word := v ++ [c] } :=
        feed_alphanumeric (by simpa using halpha) [] hv
      rw [← List.singleton_append, feed_append hword] at h
      rcases ih (by simp) ht h with hall | ⟨u, rest, rfl, hu⟩
      · exact .inl (by simpa [halpha] using hall)
      · exact .inr ⟨c :: u, rest, rfl, by simpa [halpha] using hu⟩
    by_cases hliteral : c = '\''
    · exact .inr ⟨[], t, by simp [hliteral], by simp⟩
    cases hstep : Splitter.step { word := v } c with
    | error e => simp [feed, hstep] at h
    | ok s₁ =>
      rw [feed_cons hstep] at h
      exact absurd (onePart_of_feed h hs) (not_onePart_of_step hv hstep (Ne.symm hc) hliteral halpha)

end Splitter

namespace Label

open Splitter

/-- What a label is written with in front of its colon: a letter with letters and digits behind it. An
apostrophe behind a single letter is let through too. -/
inductive IsName : Text → Prop
  | letters (c : Char) (t : Text) (first : isLetter c = true) (number : isNumeric c = false)
    (others : ∀ d ∈ t, isAlphanumeric d = true) : IsName (c :: t)
  | literal (c : Char) (first : isLetter c = true) (number : isNumeric c = false) : IsName [c, '\'']

theorem not_special_of_isLetter {c : Char} (h : isLetter c = true) : c ∉ ['\r', '"', '\'', '&', ' '] := by
  intro hm
  simp only [List.mem_cons, List.not_mem_nil, or_false] at hm
  rcases hm with rfl | rfl | rfl | rfl | rfl <;> exact absurd h (by decide)

/-- A text that is the open word and begins with a letter is the name of a label. -/
theorem isName_of_open {c : Char} {t : Text} {s : Splitter} (hc : isLetter c = true)
    (hnumber : isNumeric c = false) (ht : '\r' ∉ t) (h : feed {} (c :: t) = .ok s) (hs : s.OnePart)
    (hshort : s.inChar = true → s.word.length ≤ 2) : IsName (c :: t) ∧ s.word = c :: t := by
  rw [feed_cons (step_first (not_special_of_isLetter hc) [])] at h
  rcases open_word_cases (by simp) ht h hs with hall | ⟨u, rest, rfl, hu⟩
  · have hword := feed_alphanumeric hall [] (List.cons_ne_nil c [])
    rw [h, Except.ok.injEq] at hword
    exact ⟨.letters c t hc hnumber hall, by simp [hword]⟩
  have hword := feed_alphanumeric hu [] (List.cons_ne_nil c [])
  have hopen : Splitter.step { word := [c] ++ u } '\'' =
      .ok { word := [c] ++ u ++ ['\''], inChar := true } := rfl
  rw [feed_append hword, feed_cons hopen] at h
  have hliteral : s.inChar = true := (literal_kept_feed h rfl).resolve_left (not_not.mpr hs.parts)
  have hchars : s.chars = s.word := by simp [chars, hs.parts]
  have hlength := hshort hliteral
  -- the word is at most the letter and the apostrophe
  have hfront := (chars_prefix_feed h).length_le
  obtain rfl : u = [] := by
    rw [hchars] at hfront
    simp [chars] at hfront
    exact List.length_eq_zero_iff.mp (by omega)
  cases rest with
  | nil =>
    cases h
    exact ⟨.literal c hc hnumber, rfl⟩
  | cons y rest =>
    exfalso
    change feed { word := [c, '\''], inChar := true } (y :: rest) = .ok s at h
    cases hstep : Splitter.step { word := [c, '\''], inChar := true } y with
    | error e => simp [feed, hstep] at h
    | ok s₁ =>
      have hgrown : s₁.chars = [c, '\'', y] := by
        by_cases hspace : y = ' '
        · subst hspace
          cases hstep
          rfl
        · have hreturn : y ≠ '\r' := by
            rintro rfl
            simp at ht
          simpa [chars] using (step_cases hstep).chars_eq ⟨hreturn, hspace⟩
      rw [feed_cons hstep] at h
      have hlong := (chars_prefix_feed h).length_le
      rw [hchars, hgrown] at hlong
      simp at hlong
      omega

theorem IsName.head {name : Text} (h : IsName name) :
    ∃ c t, name = c :: t ∧ isLetter c = true ∧ isNumeric c = false := by
  cases h with
  | letters c t first number others => exact ⟨c, t, rfl, first, number⟩
  | literal c first number => exact ⟨c, ['\''], rfl, first, number⟩

theorem IsName.ne_nil {name : Text} (h : IsName name) : name ≠ [] := by
  obtain ⟨c, t, rfl, -, -⟩ := h.head
  exact List.cons_ne_nil c t

theorem IsName.isBlank {name : Text} (h : IsName name) : ∀ c ∈ name, isBlank c = false := by
  cases h with
  | letters c t first number others =>
    have hc : isAlphanumeric c = true := by simp [isAlphanumeric, first]
    intro d hd
    rcases List.mem_cons.mp hd with rfl | hd
    · exact isBlank_of_isAlphanumeric hc
    · exact isBlank_of_isAlphanumeric (others d hd)
  | literal c first number =>
    have hc : isAlphanumeric c = true := by simp [isAlphanumeric, first]
    simpa [isBlank_of_isAlphanumeric hc] using (by decide : BasicMachine.isBlank '\'' = false)

theorem IsName.splits {name : Text} (h : IsName name) (parts : List Text) :
    ∃ s, feed { parts := parts } name = .ok s ∧ s.finish = .ok (parts ++ [name]) := by
  cases h with
  | letters c t first number others =>
    have hc : isAlphanumeric c = true := by simp [isAlphanumeric, first]
    exact ⟨_, feed_word hc others parts, by simp [finish]⟩
  | literal c first number =>
    have hopen := feed_cons (step_first (not_special_of_isLetter first) parts) ['\'']
    exact ⟨{ parts := parts, word := [c, '\''], inChar := true }, hopen, by simp [finish]⟩

theorem IsName.splits_colon {name : Text} (h : IsName name) (parts : List Text) :
    ∃ s, feed { parts := parts } (name ++ [':']) = .ok s ∧ s.finish = .ok (parts ++ [name ++ [':']]) := by
  cases h with
  | letters c t first number others =>
    have hc : isAlphanumeric c = true := by simp [isAlphanumeric, first]
    have hcolon := feed_append (feed_word hc others parts) [':']
    exact ⟨{ parts := parts ++ [c :: t ++ [':']] }, hcolon, by simp [finish]⟩
  | literal c first number =>
    have hopen := feed_cons (step_first (not_special_of_isLetter first) parts) ['\'', ':']
    exact ⟨{ parts := parts, word := [c, '\'', ':'], inChar := true }, hopen, by simp [finish]⟩

theorem decode_lettered {c : Char} {t : Text} (first : isLetter c = true) (number : isNumeric c = false) :
    Token.decode (c :: t) = Token.decodeLettered (c :: t) := by
  have hne (d : Char) (hd : isLetter d = false) : c ≠ d := by
    rintro rfl
    simp [hd] at first
  simp [Token.decode, hne '$' (by decide), hne '"' (by decide), hne '\'' (by decide), number, first]

theorem isNumeric_of_decode_label {c : Char} {t w : Text} (hletter : isLetter c = true)
    (h : Token.decode (c :: t) = .ok (.label w)) : isNumeric c = false := by
  rw [Bool.eq_false_iff]
  intro hnumber
  have hdollar : c ≠ '$' := by
    rintro rfl
    exact absurd hletter (by decide)
  simp only [Token.decode, if_neg hdollar, if_pos hnumber, Token.asNumber] at h
  split at h
  · cases h
  · cases h

/-- Without its colon a name is a variable, a word or malformed. -/
theorem IsName.decode_eq {name : Text} (h : IsName name) : Token.decode name =
    if name.length = 1 then .ok (.numericVar (upper name))
    else if ∀ c ∈ name, isLetter c = true then .ok (.word name)
    else .error (.malformed .word name) := by
  have hspace : ' ' ∉ name := fun hm => absurd (h.isBlank ' ' hm) (by decide)
  have hcolon : name.getLast? ≠ some ':' := by
    intro hlast
    have hm := List.mem_of_getLast? hlast
    cases h with
    | letters c t first number others =>
      rcases List.mem_cons.mp hm with rfl | hm
      · exact absurd first (by decide)
      · exact absurd (others ':' hm) (by decide)
    | literal c first number =>
      rcases List.mem_cons.mp hm with rfl | hm
      · exact absurd first (by decide)
      · exact absurd hm (by decide)
  obtain ⟨c, t, rfl, first, number⟩ := h.head
  rw [decode_lettered first number]
  simp only [Token.decodeLettered, not_remark_of_no_space hspace, if_neg hcolon, Bool.false_eq_true, if_false]
  cases t with
  | nil => simp [Token.asNumericVar, first]
  | cons d t => simp [Token.asWord]

theorem IsName.decode_colon {name : Text} (h : IsName name) :
    Token.decode (name ++ [':']) = .ok (.label (name ++ [':'])) := by
  have hspace : ' ' ∉ name ++ [':'] := by
    have hname : ' ' ∉ name := fun hm => absurd (h.isBlank ' ' hm) (by decide)
    simpa using hname
  have hlast : (name ++ [':']).getLast? = some ':' := List.getLast?_concat
  obtain ⟨c, t, rfl, first, number⟩ := h.head
  have hlong : (c :: t ++ [':']).length ≠ 1 := by simp
  rw [List.cons_append] at hspace hlast hlong ⊢
  simp only [decode_lettered first number, Token.decodeLettered, if_neg hlong, if_pos hlast,
    not_remark_of_no_space hspace, Bool.false_eq_true, if_false]

def lead (text : Text) : Text := (text.filter (· != '\r')).takeWhile isBlank

/-- A label without the blanks in front of it and without carriage returns. -/
def name (text : Text) : Text := (text.filter (· != '\r')).dropWhile isBlank

theorem lead_append_name (text : Text) : lead text ++ name text = text.filter (· != '\r') :=
  List.takeWhile_append_dropWhile

theorem isBlank_of_mem_lead {text : Text} {c : Char} (h : c ∈ lead text) : isBlank c = true :=
  List.mem_takeWhile_imp h

theorem isBlank_head_name (text : Text) : ∀ c ∈ (name text).head?, isBlank c = false := by
  intro c hc
  have hfirst := List.head?_dropWhile_not isBlank (text.filter (· != '\r'))
  rw [← name, Option.mem_def.mp hc] at hfirst
  exact hfirst

theorem return_not_mem_name (text : Text) : '\r' ∉ name text := by
  intro hm
  simpa using List.mem_filter.mp ((List.dropWhile_suffix _).subset hm)

/-- The splitter sees the line that defines a label without the blanks. -/
theorem seen_definition (text : Text) : seen (text ++ [':']) = name text ++ [':'] := by
  have hsolid : Token.Solid (name text ++ [':']) := by
    constructor
    · intro c hc
      cases hname : name text with
      | nil =>
        rw [hname] at hc
        obtain rfl : ':' = c := by simpa using hc
        decide
      | cons d t =>
        rw [hname] at hc
        obtain rfl : d = c := by simpa using hc
        exact isBlank_head_name text d (by simp [hname])
    · rw [List.getLast?_concat]
      rintro c ⟨⟩
      decide
  have hfilter : (text ++ [':']).filter (· != '\r') = lead text ++ (name text ++ [':']) ++ [] := by
    rw [List.filter_append, ← lead_append_name]
    simp
  rw [seen, hfilter]
  exact Token.strip_around (fun c hc => isBlank_of_mem_lead hc) (by simp) hsolid

/-- The text of a line that defines a label is a name behind blanks. -/
theorem isName_of_parse {text w : Text} (h : Token.parse (text ++ [':']) = .ok [.label w]) :
    IsName (name text) ∧ w = name text ++ [':'] := by
  obtain ⟨parts, hsplit, hfrom⟩ := Token.parse_comesFrom h
  cases hfrom with
  | cons hpart hrest =>
  cases hrest
  cases hpart with
  | decoded hdecode =>
  cases Token.decoded_of_decode hdecode with
  | label c t first last =>
  have hnumber := isNumeric_of_decode_label first hdecode
  have hcolon : c ≠ ':' := by
    rintro rfl
    exact absurd first (by decide)
  obtain ⟨s, hfeed, hfinish⟩ := Token.splitLine_eq_ok hsplit
  have hcode : s.inComment = false := by
    rcases splitLine_cases hfeed hfinish with ⟨r, v, hparts, hr⟩ | ⟨hcode, -⟩
    · rw [List.singleton_inj.mp hparts, Token.decode_remark hr v] at hdecode
      cases hdecode
    · exact hcode
  rw [← feed_filter, ← seen_eq_filter, seen_definition] at hfeed
  obtain ⟨s₀, hbefore, hstep⟩ := feed_concat_eq_ok hfeed
  obtain ⟨hone, hword, hshort⟩ := onePart_before_colon hstep hcode hfinish hcolon
  -- the first character of the name is the first of the part
  cases hname : name text with
  | nil =>
    rw [hname] at hbefore
    cases hbefore
    exact absurd (List.cons.inj hword).1 hcolon
  | cons d u =>
    have hreturn := return_not_mem_name text
    have hblank := isBlank_head_name text d (by simp [hname])
    rw [hname] at hbefore hreturn
    obtain ⟨hd, hu⟩ := not_or.mp (List.mem_cons.not.mp hreturn)
    have hspace : d ≠ ' ' := by
      rintro rfl
      exact absurd hblank (by decide)
    obtain ⟨v, hv⟩ := word_begins hbefore hone.parts ⟨Ne.symm hd, hspace⟩
    rw [hv] at hword
    obtain rfl : c = d := (List.cons.inj hword).1
    obtain ⟨hisName, hopen⟩ := isName_of_open first hnumber hu hbefore hone hshort
    rw [← hv, hopen] at hword
    exact ⟨hisName, hword⟩

end Label
end BasicMachine
