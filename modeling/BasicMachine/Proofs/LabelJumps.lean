import BasicMachine.Proofs.LabelNames
import BasicMachine.Proofs.LabelSearch

/-! Jumps by the name of a label. What stands behind `GOTO` is read as a part of its own, so not every label
that a program defines is looked for when it is named there. A letter alone is a variable, a keyword is its
value, and a name that is no word is malformed; only with its colon every label is looked for. -/
namespace BasicMachine

namespace Splitter

/-- The second part begins with the character, or the word that will be the second part does. -/
def SecondBegins (first : Text) (x : Char) (s : Splitter) : Prop :=
  (s.parts = [first] ∧ ∃ u, s.word = x :: u) ∨ ∃ u rest, s.parts = first :: (x :: u) :: rest

theorem SecondBegins.step {first : Text} {x : Char} (s : Splitter) (c : Char) (s' : Splitter)
    (hstep : Step s c s') (h : SecondBegins first x s) : SecondBegins first x s' := by
  rcases h with ⟨hparts, u, hword⟩ | ⟨u, rest, hparts⟩
  · cases hstep <;> simp_all [SecondBegins, add, flush]
  · right
    cases hstep <;> simp_all [add, flush]

/-- The word that is begun behind the first part becomes the second part. -/
theorem second_begins {first t : Text} {x : Char} {s : Splitter} {parts : List Text}
    (h : feed s t >>= finish = .ok parts) (hs : SecondBegins first x s) :
    ∃ u rest, parts = first :: (x :: u) :: rest := by
  cases hfeed : feed s t with
  | error e =>
    rw [hfeed] at h
    cases h
  | ok s' =>
    rw [hfeed] at h
    change s'.finish = .ok parts at h
    have hbegins := feed_keeps SecondBegins.step hfeed hs
    unfold finish at h
    split at h
    · cases h
    cases h
    rcases hbegins with ⟨hparts, u, hword⟩ | ⟨u, rest, hparts⟩
    · exact ⟨u, [], by simp [hparts, hword]⟩
    · split
      · exact ⟨u, rest, hparts⟩
      · exact ⟨u, rest ++ [s'.word], by simp [hparts]⟩

end Splitter

theorem exists_first_other {t : Text} {d : Char} (h : ¬∀ c ∈ t, c = d) :
    ∃ front x rest, t = front ++ x :: rest ∧ (∀ c ∈ front, c = d) ∧ x ≠ d := by
  induction t with
  | nil => simp at h
  | cons c t ih =>
    by_cases hc : c = d
    · obtain ⟨front, x, rest, rfl, hfront, hx⟩ := ih (by simpa [hc] using h)
      exact ⟨c :: front, x, rest, rfl, by simpa [hc] using hfront, hx⟩
    · exact ⟨[], c, t, rfl, by simp, hc⟩

/-- The token is looked for as a label in every machine. -/
def Token.Seeks (token : Token) (label : Text) : Prop :=
  ∀ m, token.toAddress m = (m.labelAddress label).map Int.ofNat

namespace Machine

theorem labelAddress_blank (label : Text) :
    (withProgram {} []).labelAddress label = .error (.undefinedLabel label) :=
  labelAddress_eq (loaded_withProgram (m := {}) (by decide) []) label

theorem word_seeks_iff (label : Text) :
    (Token.word label).Seeks label ↔ Keyword.ofName? label = none := by
  constructor
  · intro h
    have hblank := h (withProgram {} [])
    rw [labelAddress_blank, Token.toAddress] at hblank
    cases hkeyword : Keyword.ofName? label with
    | none => rfl
    | some k =>
      rw [hkeyword] at hblank
      cases hblank
  · intro h m
    rw [Token.toAddress, h]
    cases m.labelAddress label <;> rfl

theorem label_seeks (label : Text) : (Token.label (label ++ [':'])).Seeks label := by
  intro m
  rw [Token.toAddress, List.dropLast_concat]
  cases m.labelAddress label <;> rfl

theorem not_seeks {token : Token} {reading : Reading}
    (h : ∀ m, token.toAddress m = .error (.unexpectedToken reading)) (label : Text) : ¬token.Seeks label := by
  intro hseeks
  have hblank := hseeks (withProgram {} [])
  rw [h, labelAddress_blank] at hblank
  cases hblank

/-- The jump is read, and what stands behind `GOTO` is looked for as the label. -/
def JumpSeeks (text label : Text) : Prop :=
  ∃ token, Token.parse (gotoLabel text) = .ok [.word "GOTO".toList, token] ∧ token.Seeks label

theorem decode_goto : Token.decode "GOTO".toList = .ok (.word "GOTO".toList) := by decide +kernel

theorem splitLine_gotoLabel {text body : Text} (htext : text.filter (· != '\r') = body) (hne : body ≠ [])
    (hlast : ∀ c ∈ body.getLast?, isBlank c = false) :
    splitLine (gotoLabel text) = feed { parts := ["GOTO".toList] } body >>= Splitter.finish := by
  have hfilter : (gotoLabel text).filter (· != '\r') = "GOTO ".toList ++ body := by
    unfold gotoLabel
    rw [List.filter_append, htext]
    rfl
  have hseen : seen (gotoLabel text) = "GOTO ".toList ++ body := by
    rw [seen, hfilter]
    refine trimBoth_of_ends ?_ ?_
    · rintro c ⟨⟩
      decide
    · rwa [List.getLast?_append_of_ne_nil _ hne]
  have hgoto : feed {} "GOTO ".toList = .ok { parts := ["GOTO".toList] } := by decide +kernel
  rw [splitLine_seen, hseen, feed_append hgoto]

theorem parse_gotoLabel_part {text part : Text}
    (h : splitLine (gotoLabel text) = .ok ["GOTO".toList, part]) :
    Token.parse (gotoLabel text) =
      (Token.decode part).map fun token => [.word "GOTO".toList, token] := by
  rw [Token.parse, h]
  cases hdecode : Token.decode part with
  | error e => simp only [Token.decodeAll, decode_goto, hdecode, bind, Except.bind, Except.map]
  | ok token =>
    simp only [Token.decodeAll, decode_goto, hdecode, bind, Except.bind, Except.map, pure, Except.pure]

theorem parse_gotoLabel_spaced {text spaces part : Text}
    (htext : text.filter (· != '\r') = spaces ++ part) (hspaces : ∀ c ∈ spaces, c = ' ')
    (hne : part ≠ []) (hlast : ∀ c ∈ part.getLast?, isBlank c = false)
    (hsplits : ∃ s, feed { parts := ["GOTO".toList] } part = .ok s ∧
      s.finish = .ok (["GOTO".toList] ++ [part])) :
    Token.parse (gotoLabel text) =
      (Token.decode part).map fun token => [.word "GOTO".toList, token] := by
  obtain ⟨s, hfeed, hfinish⟩ := hsplits
  apply parse_gotoLabel_part
  have hlast' : ∀ c ∈ (spaces ++ part).getLast?, isBlank c = false := by
    rwa [List.getLast?_append_of_ne_nil _ hne]
  rw [splitLine_gotoLabel htext (by simp [hne]) hlast', List.eq_replicate_of_mem hspaces,
    feed_append (feed_spaces _ _), hfeed]
  exact hfinish

section Defined

variable {text : Text} (hname : Label.IsName (Label.name text))

section Spaced

variable (hspaced : ∀ c ∈ Label.lead text, c = ' ')
include hname hspaced

theorem parse_gotoLabel_name : Token.parse (gotoLabel text) =
    (Token.decode (Label.name text)).map fun token => [.word "GOTO".toList, token] := by
  refine parse_gotoLabel_spaced (Label.lead_append_name text).symm hspaced hname.ne_nil ?_ (hname.splits _)
  exact fun c hc => hname.isBlank c (List.mem_of_getLast? hc)

theorem parse_gotoLabel_colon : Token.parse (gotoLabel (text ++ [':'])) =
    .ok [.word "GOTO".toList, .label (Label.name text ++ [':'])] := by
  have htext : (text ++ [':']).filter (· != '\r') = Label.lead text ++ (Label.name text ++ [':']) := by
    rw [List.filter_append, ← Label.lead_append_name, List.append_assoc]
    rfl
  have hlast : ∀ c ∈ (Label.name text ++ [':']).getLast?, isBlank c = false := by
    rw [List.getLast?_concat]
    rintro c ⟨⟩
    decide
  rw [parse_gotoLabel_spaced htext hspaced (by simp) hlast (hname.splits_colon _), hname.decode_colon]
  rfl

end Spaced

include hname in
/-- A blank that is no space begins the part behind the command. -/
theorem exists_symbol_of_blank {token : Token} (hblank : ¬∀ c ∈ Label.lead text, c = ' ')
    (h : Token.parse (gotoLabel text) = .ok [.word "GOTO".toList, token]) : ∃ x, token = .symbol [x] := by
  obtain ⟨spaces, x, more, hlead, hspaces, hx⟩ := exists_first_other hblank
  have hmem : x ∈ Label.lead text := by simp [hlead]
  have hxblank := Label.isBlank_of_mem_lead hmem
  have hreturn : x ≠ '\r' := by
    simpa using (List.mem_filter.mp ((List.takeWhile_prefix _).subset hmem)).2
  have hfirst : x ∉ ['\r', '"', '\'', '&', ' '] := by
    intro hm
    simp only [List.mem_cons, List.not_mem_nil, or_false, hreturn, hx, false_or] at hm
    rcases hm with rfl | rfl | rfl <;> exact absurd hxblank (by decide)
  have htext : text.filter (· != '\r') = spaces ++ x :: more ++ Label.name text := by
    rw [← Label.lead_append_name, hlead]
  -- The name ends the line, so stripping it takes nothing off behind.
  have hlast : ∀ c ∈ (spaces ++ x :: more ++ Label.name text).getLast?, isBlank c = false := by
    rw [List.getLast?_append_of_ne_nil _ hname.ne_nil]
    exact fun c hc => hname.isBlank c (List.mem_of_getLast? hc)
  obtain ⟨parts, hsplit, hfrom⟩ := Token.parse_comesFrom h
  rw [splitLine_gotoLabel htext (by simp) hlast, List.append_assoc, List.eq_replicate_of_mem hspaces,
    feed_append (feed_spaces _ _), List.cons_append, feed_cons (step_first hfirst _)] at hsplit
  obtain ⟨u, rest, rfl⟩ := Splitter.second_begins hsplit (.inl ⟨rfl, [], rfl⟩)
  cases hfrom with
  | cons _ hfrom =>
  cases hfrom with
  | cons hpart _ =>
  cases hpart with
  | decoded hread =>
    rw [decode_of_isBlank hxblank] at hread
    exact ⟨x, (Except.ok.inj hread).symm⟩
  | remark t hread =>
    rw [decode_of_isBlank hxblank] at hread
    cases hread

end Defined

/-- What makes a label one that can be jumped to by its name: it is a word, and not a keyword. -/
structure Jumpable (text : Text) : Prop where
  spaced : ∀ c ∈ Label.lead text, c = ' '
  long : 2 ≤ (Label.name text).length
  letters : ∀ c ∈ Label.name text, isLetter c = true
  plain : Keyword.ofName? (Label.name text) = none

section Reading

variable {text : Text} (hname : Label.IsName (Label.name text))
include hname

theorem parse_gotoLabel_word (hspaced : ∀ c ∈ Label.lead text, c = ' ')
    (hlong : 2 ≤ (Label.name text).length) (hletters : ∀ c ∈ Label.name text, isLetter c = true) :
    Token.parse (gotoLabel text) = .ok [.word "GOTO".toList, .word (Label.name text)] := by
  rw [parse_gotoLabel_name hname hspaced, hname.decode_eq, if_neg (by omega), if_pos hletters]
  rfl

/-- A label that is defined is looked for behind `GOTO` exactly if it is a word and not a keyword. -/
theorem jumpSeeks_iff : JumpSeeks text (Label.name text) ↔ Jumpable text := by
  constructor
  · rintro ⟨token, hparse, hseeks⟩
    by_cases hspaced : ∀ c ∈ Label.lead text, c = ' '
    · rw [parse_gotoLabel_name hname hspaced, hname.decode_eq] at hparse
      split_ifs at hparse with hone hletters
      · cases hparse
        exact absurd hseeks (not_seeks (fun m => rfl) _)
      · cases hparse
        have hpos := List.length_pos_iff.mpr hname.ne_nil
        exact ⟨hspaced, by omega, hletters, (word_seeks_iff _).mp hseeks⟩
      · cases hparse
    · obtain ⟨x, rfl⟩ := exists_symbol_of_blank hname hspaced hparse
      exact absurd hseeks (not_seeks (fun m => rfl) _)
  · intro h
    exact ⟨_, parse_gotoLabel_word hname h.spaced h.long h.letters, (word_seeks_iff _).mpr h.plain⟩

end Reading

theorem infix_of_mem_linesOf {line program : List UInt8} (h : line ∈ linesOf program) :
    line <:+: program := by
  induction hlength : program.length using Nat.strong_induction_on generalizing program with
  | _ n ih =>
    rcases program_cases program with hlast | ⟨first, rest, hfirst, hshort, rfl⟩
    · rw [linesOf_of_not_mem hlast, List.mem_singleton] at h
      exact h ▸ List.infix_refl _
    · rw [linesOf_append hfirst] at h
      rcases List.mem_cons.mp h with rfl | hrest
      · exact (List.prefix_append _ _).isInfix
      · have hin := ih rest.length (by omega) hrest rfl
        exact hin.trans ⟨first ++ [Memory.newline], [], by simp⟩

theorem exists_firstPlace {text : Text} {line program : List UInt8} (hline : line ∈ linesOf program)
    (hdecode : CodePage.decode line = text ++ [':']) (hreturn : '\r' ∉ text) :
    ∃ k, firstPlace (Label.mark (Label.name text)) program = some k := by
  have htext : Label.lead text ++ Label.name text = text := by
    rw [Label.lead_append_name, List.filter_eq_self, forall_ne_return_iff]
    exact hreturn
  have hbytes : line = CodePage.encode (Label.lead text) ++ Label.mark (Label.name text) := by
    rw [← CodePage.encode_decode line, hdecode, Label.mark, CodePage.encode, CodePage.encode, CodePage.encode,
      ← List.map_append, ← List.append_assoc, htext]
  have hmark : Label.mark (Label.name text) <:+: line := by
    rw [hbytes]
    exact (List.suffix_append _ _).isInfix
  refine Option.ne_none_iff_exists'.mp fun hnone => ?_
  exact (firstPlace_eq_none_iff (Label.mark_ne_nil _) program).mp hnone
    (hmark.trans (infix_of_mem_linesOf hline))

/-- A jump whose argument is looked for goes to the first place where the label stands. -/
theorem JumpSeeks.jumpsTo {m : Machine} {program : List UInt8} {text label : Text} {k : Nat}
    (h : JumpSeeks text label) (hloaded : Loaded m program)
    (hplace : firstPlace (Label.mark label) program = some k) : JumpsTo m text (some k) := by
  obtain ⟨token, hparse, hseeks⟩ := h
  obtain ⟨c, hok, -⟩ := run_gotoLabel hparse m
  have hloaded' : Loaded { m with console := c } program := ⟨hloaded.size, hloaded.fits, hloaded.bytes⟩
  refine ⟨c, hok _ ?_⟩
  rw [hseeks, labelAddress_eq hloaded', hplace]
  rfl

/-- What a jump does with a label that is defined by `text` and a colon. It can be jumped to by its name
exactly if it is a word and not a keyword, and then the jump goes where the name stands. With its colon
every label can be jumped to. Without, a single letter is a variable, a keyword is its value, and any other
name is malformed. -/
structure LabelDecided (m : Machine) (program : List UInt8) (text w : Text) : Prop where
  written : w = Label.name text ++ [':']
  sought : JumpSeeks text (Label.name text) ↔ Jumpable text
  found : Jumpable text → '\r' ∉ text →
    ∃ k, firstPlace (Label.mark (Label.name text)) program = some k ∧ JumpsTo m text (some k)
  colon : (∀ c ∈ Label.lead text, c = ' ') → JumpSeeks (text ++ [':']) (Label.name text)
  single : (∀ c ∈ Label.lead text, c = ' ') → (Label.name text).length = 1 →
    Token.parse (gotoLabel text) = .ok [.word "GOTO".toList, .numericVar (upper (Label.name text))]
  keyword : (∀ c ∈ Label.lead text, c = ' ') → (∀ c ∈ Label.name text, isLetter c = true) →
    ∀ k, Keyword.ofName? (Label.name text) = some k →
      ∃ token, Token.parse (gotoLabel text) = .ok [.word "GOTO".toList, token] ∧
        ∀ m', token.toAddress m' = .ok (k.value m')
  malformed : (∀ c ∈ Label.lead text, c = ' ') → 2 ≤ (Label.name text).length →
    (∃ c ∈ Label.name text, isLetter c = false) →
      Token.parse (gotoLabel text) = .error (.malformed .word (Label.name text))

theorem keyword_long {t : Text} {k : Keyword} (h : Keyword.ofName? t = some k) : 2 ≤ t.length := by
  have hname : k.name = t := by simpa using List.find?_some h
  rw [← hname]
  cases k <;> decide

/-- A label is defined by a line of its name and a colon. It can be jumped to by its name exactly if the name
has two letters or more and nothing else, and is not a keyword. -/
theorem defined_labelDecided (m : Machine) (program line : List UInt8) (text w : Text)
    (hdefined : Token.parse (text ++ [':']) = .ok [.label w]) (hloaded : Loaded m program)
    (hline : line ∈ linesOf program) (hdecode : CodePage.decode line = text ++ [':']) :
    LabelDecided m program text w := by
  obtain ⟨hname, hw⟩ := Label.isName_of_parse hdefined
  have hsought := jumpSeeks_iff hname
  constructor
  case written => exact hw
  case sought => exact hsought
  case found =>
    intro hjump hreturn
    obtain ⟨k, hk⟩ := exists_firstPlace hline hdecode hreturn
    exact ⟨k, hk, (hsought.mpr hjump).jumpsTo hloaded hk⟩
  case colon =>
    intro hspaced
    exact ⟨_, parse_gotoLabel_colon hname hspaced, label_seeks _⟩
  case single =>
    intro hspaced hone
    rw [parse_gotoLabel_name hname hspaced, hname.decode_eq, if_pos hone]
    rfl
  case keyword =>
    intro hspaced hletters k hk
    refine ⟨_, parse_gotoLabel_word hname hspaced (keyword_long hk) hletters, fun m' => ?_⟩
    rw [Token.toAddress, hk]
  case malformed =>
    rintro hspaced hlong ⟨c, hc, hother⟩
    have hletters : ¬∀ c ∈ Label.name text, isLetter c = true := by
      intro hall
      simp [hall c hc] at hother
    rw [parse_gotoLabel_name hname hspaced, hname.decode_eq, if_neg (by omega), if_neg hletters]
    rfl

/-- A program with an indented label in letters that are not all of the alphabet. -/
def indentedText : List UInt8 := CodePage.encode "REM\n  näher:\nGOTO näher\n".toList

theorem indented_label_found :
    Token.parse "  näher:".toList = .ok [.label "näher:".toList] ∧
      Loaded (withProgram {} indentedText) indentedText ∧
      CodePage.encode "  näher:".toList ∈ linesOf indentedText ∧
      JumpSeeks "  näher".toList "näher".toList ∧
      JumpsTo (withProgram {} indentedText) "  näher".toList (some 6) := by
  have hparse : Token.parse ("  näher".toList ++ [':']) = .ok [.label "näher:".toList] := by decide +kernel
  have hloaded : Loaded (withProgram {} indentedText) indentedText :=
    loaded_withProgram (by decide) indentedText
  have hline : CodePage.encode "  näher:".toList ∈ linesOf indentedText := by decide +kernel
  have hdecided := defined_labelDecided _ _ _ _ _ hparse hloaded hline (by decide +kernel)
  have hspaced : ∀ c ∈ Label.lead "  näher".toList, c = ' ' := by
    rw [show Label.lead "  näher".toList = [' ', ' '] by decide +kernel]
    simp
  have hjump : Jumpable "  näher".toList :=
    ⟨hspaced, by decide +kernel, List.all_eq_true.mp (by decide +kernel), by decide +kernel⟩
  obtain ⟨k, hk, hjumps⟩ := hdecided.found hjump (by decide)
  have hplace : firstPlace (Label.mark (Label.name "  näher".toList)) indentedText = some 6 := by
    decide +kernel
  obtain rfl : 6 = k := Option.some.inj (hplace.symm.trans hk)
  exact ⟨hparse, hloaded, hline, hdecided.sought.mpr hjump, hjumps⟩

def versionText : List UInt8 := CodePage.encode "VERSION:\n".toList

/-- The label is defined, but the jump goes to the value of the keyword. -/
theorem version_label_not_sought :
    Token.parse "VERSION:".toList = .ok [.label "VERSION:".toList] ∧
      Loaded (withProgram {} versionText) versionText ∧
      CodePage.encode "VERSION:".toList ∈ linesOf versionText ∧
      Token.parse (gotoLabel "VERSION".toList) = .ok [.word "GOTO".toList, .word "VERSION".toList] ∧
      (withProgram {} versionText).labelAddress "VERSION".toList = .ok 32768 ∧
      Token.toAddress (withProgram {} versionText) (.word "VERSION".toList) = .ok 18 ∧
      ¬JumpSeeks "VERSION".toList "VERSION".toList := by
  have hloaded : Loaded (withProgram {} versionText) versionText := loaded_withProgram (by decide) versionText
  have hparse : Token.parse (gotoLabel "VERSION".toList) =
      .ok [.word "GOTO".toList, .word "VERSION".toList] := by decide +kernel
  have hplace : firstPlace (Label.mark "VERSION".toList) versionText = some 0 := by decide +kernel
  have hkeyword : Keyword.ofName? "VERSION".toList = some .version := by decide +kernel
  refine ⟨by decide +kernel, hloaded, by decide +kernel, hparse, ?_, ?_, ?_⟩
  · rw [labelAddress_eq hloaded, hplace]
    rfl
  · rw [Token.toAddress, hkeyword]
    rfl
  · rintro ⟨token, hread, hseeks⟩
    rw [hparse] at hread
    cases hread
    rw [word_seeks_iff, hkeyword] at hseeks
    cases hseeks

end Machine
end BasicMachine
