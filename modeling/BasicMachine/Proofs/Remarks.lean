import BasicMachine.Proofs.SymbolLoss
import BasicMachine.Proofs.Tracking

/-! Remarks. A line whose first word is `REM` with a space behind it is a comment, whatever follows, and does
nothing when it is run. The space is what makes the comment: the word alone is taken for a command, and there is
none of that name. Carriage returns are passed over when a line is split, but the text of a comment is
cut out of the line with them. -/
namespace BasicMachine

/-- The line as the splitter sees it: without carriage returns, and without the blanks around it. -/
def seen (line : Text) : Text := strip (line.filter (· != '\r'))

theorem feed_filter (s : Splitter) (t : Text) : feed s (t.filter (· != '\r')) = feed s t := by
  induction t generalizing s with
  | nil => rfl
  | cons c t ih =>
    by_cases hc : c = '\r'
    · have hskip : s.step c = .ok s := by simp [Splitter.step, hc]
      rw [List.filter_cons_of_neg (by simp [hc]), feed_cons hskip, ih]
    · rw [List.filter_cons_of_pos (by simpa using hc)]
      cases hstep : s.step c with
      | error e => simp [feed, hstep]
      | ok s' => rw [feed_cons hstep, feed_cons hstep, ih]

/-- Leading characters of a class can be dropped before or after some characters of the class are removed. -/
theorem filter_dropWhile {p q : Char → Bool} (h : ∀ c, q c = false → p c = true) (t : Text) :
    (t.dropWhile p).filter q = (t.filter q).dropWhile p := by
  induction t with
  | nil => rfl
  | cons c t ih =>
    cases hq : q c with
    | false => rw [List.dropWhile_cons_of_pos (h c hq), List.filter_cons_of_neg (by simp [hq]), ih]
    | true =>
      rw [List.filter_cons_of_pos hq]
      cases hp : p c with
      | false =>
        rw [List.dropWhile_cons_of_neg (by simp [hp]), List.dropWhile_cons_of_neg (by simp [hp]),
          List.filter_cons_of_pos hq]
      | true => rw [List.dropWhile_cons_of_pos hp, List.dropWhile_cons_of_pos hp, ih]

theorem seen_eq_filter (line : Text) : seen line = (strip line).filter (· != '\r') := by
  have hblank : ∀ c : Char, (c != '\r') = false → isBlank c = true := by
    intro c hc
    obtain rfl : c = '\r' := by simpa using hc
    rfl
  rw [seen, strip, trimBoth, strip, trimBoth, List.filter_reverse, filter_dropWhile hblank,
    List.filter_reverse, filter_dropWhile hblank]

theorem splitLine_seen (line : Text) : splitLine line = feed {} (seen line) >>= Splitter.finish := by
  rw [seen_eq_filter, feed_filter]
  rfl

theorem return_not_mem_seen (line : Text) : '\r' ∉ seen line := by
  rw [seen_eq_filter]
  simp

theorem forall_ne_return_iff (t : Text) : (∀ c ∈ t, (c != '\r') = true) ↔ '\r' ∉ t := by
  simpa using List.forall_mem_ne'

/-- The line is the word `REM` in some letter case, and nothing else. -/
def IsBareRemark (line : Text) : Prop := upper (seen line) = ['R', 'E', 'M']

instance (line : Text) : Decidable (IsBareRemark line) := inferInstanceAs (Decidable (_ = _))

/-- The line is the word `REM` in some letter case, alone or with a space and a text behind it. -/
inductive IsRemark (line : Text) : Text → Prop
  | bare (word : IsBareRemark line) : IsRemark line []
  | spaced (r t : Text) (word : upper r = ['R', 'E', 'M']) (spelled : seen line = r ++ ' ' :: t) :
    IsRemark line t

section Reading

open Token

variable {line r t : Text}

theorem feed_remark_word (hr : upper r = ['R', 'E', 'M']) : feed {} r = .ok { word := r } := by
  obtain ⟨hlength, hletters⟩ := remark_letters hr
  have halpha (c : Char) (hc : c ∈ r) : isAlphanumeric c = true := by
    simp [isAlphanumeric, isLetter_of_isAlpha (hletters c hc)]
  cases r with
  | nil => cases hlength
  | cons c r => exact feed_word (halpha c (by simp)) (fun d hd => halpha d (by simp [hd])) []

theorem feed_comment {s : Splitter} (hs : s.inComment = true) (ht : '\r' ∉ t) :
    feed s t = .ok { s with word := s.word ++ t } := by
  induction t generalizing s with
  | nil => simp [feed]
  | cons c t ih =>
    obtain ⟨hc, ht⟩ := not_or.mp (List.mem_cons.not.mp ht)
    have hstep : s.step c = .ok (s.add c) := by simp [Splitter.step, Ne.symm hc, hs]
    rw [feed_cons hstep, ih (show (s.add c).inComment = true from hs) ht]
    simp [Splitter.add]

theorem splitLine_remark (hr : upper r = ['R', 'E', 'M']) (h : seen line = r ++ ' ' :: t) :
    splitLine line = .ok [r ++ ' ' :: t] := by
  have hne : r ≠ [] := by
    rintro rfl
    cases hr
  have hspace : Splitter.step { word := r } ' ' = .ok { word := r ++ [' '], inComment := true } := by
    simp [Splitter.step, Splitter.extend, Splitter.atRemark, Splitter.add, hne, hr]
  have hreturn : '\r' ∉ t := by
    have hseen := return_not_mem_seen line
    rw [h] at hseen
    simp_all
  rw [splitLine_seen, h, feed_append (feed_remark_word hr), feed_cons hspace, feed_comment rfl hreturn]
  simp [bind, Except.bind, Splitter.finish]

theorem parse_remark (hr : upper r = ['R', 'E', 'M']) (h : seen line = r ++ ' ' :: t) :
    parse line = .ok [.comment ((strip line).drop 4)] := by
  rw [parse, splitLine_remark hr h]
  simp [decodeAll, decode_remark hr t, bind, Except.bind, pure, Except.pure]

theorem parse_bareRemark (h : IsBareRemark line) : parse line = .ok [.word (seen line)] := by
  obtain ⟨hlength, hletters⟩ := remark_letters h
  have hne : seen line ≠ [] := by
    intro hnil
    rw [hnil] at hlength
    cases hlength
  have hsplit : splitLine line = .ok [seen line] := by
    rw [splitLine_seen, feed_remark_word h]
    simp [bind, Except.bind, Splitter.finish, hne]
  rw [parse, hsplit]
  simp [decodeAll, decode_word (by omega) hletters, bind, Except.bind, pure, Except.pure]

theorem not_isBareRemark (hr : upper r = ['R', 'E', 'M']) (h : seen line = r ++ ' ' :: t) :
    ¬IsBareRemark line := by
  intro hbare
  have hlong := (remark_letters hbare).1
  have hthree := (remark_letters hr).1
  rw [h] at hlong
  simp at hlong
  omega

end Reading

section Returns

variable {q : Char → Bool} {u w t : Text} (h : u.filter q = w ++ t)
include h

/-- What is kept behind the length of a front is the rest exactly if everything before is kept. -/
theorem filter_drop_eq_iff : (u.drop w.length).filter q = t ↔ ∀ c ∈ u.take w.length, q c = true := by
  have hsplit : (u.take w.length).filter q ++ (u.drop w.length).filter q = w ++ t := by
    rw [← List.filter_append, List.take_append_drop, h]
  constructor
  · intro hrest
    rw [hrest] at hsplit
    have hfront := List.append_cancel_right hsplit
    have hkept := List.length_filter_le q (u.take w.length)
    have htaken := List.length_take_le w.length u
    exact List.length_filter_eq_length_iff.mp (by rw [hfront] at hkept ⊢; omega)
  · intro hall
    rw [List.filter_eq_self.mpr hall] at hsplit
    have hlong : (w ++ t).length ≤ u.length := h ▸ List.length_filter_le q u
    rw [List.length_append] at hlong
    exact (List.append_inj hsplit (by rw [List.length_take]; omega)).2

theorem drop_eq_iff : u.drop w.length = t ↔ ∀ c ∈ u, q c = true := by
  constructor
  · intro hrest
    have hkept : ∀ c ∈ t, q c = true := by
      intro c hc
      have hmem : c ∈ u.filter q := h ▸ List.mem_append_right w hc
      exact (List.mem_filter.mp hmem).2
    have hfront := (filter_drop_eq_iff h).mp (by rw [hrest, List.filter_eq_self.mpr hkept])
    intro c hc
    rw [← List.take_append_drop w.length u, hrest] at hc
    exact (List.mem_append.mp hc).elim (hfront c) (hkept c)
  · intro hall
    rw [List.filter_eq_self.mpr hall] at h
    rw [h, List.drop_left]

end Returns

namespace Machine

/-- Running the line logs it and does nothing else. -/
def RunsSilently (line : Text) : Prop := ∀ m : Machine, ∃ c : Console, c.input = m.console.input ∧
  (runLine line).run m = (.ok (), { m with console := c })

/-- Running the line logs it and fails. -/
def RunsInto (line : Text) (e : Fault) : Prop := ∀ m : Machine, ∃ c : Console, c.input = m.console.input ∧
  (runLine line).run m = (.error e, { m with console := c })

theorem runsSilently_of_comment {line t : Text} (h : Token.parse line = .ok [.comment t]) :
    RunsSilently line := by
  intro m
  obtain ⟨c, hinput, hrun⟩ := Act.run_execute
    (show (Act.stored line).tokens? = some _ from toOption_eq_some_iff.mpr h) m
  exact ⟨c, hinput, hrun.trans (Command.run_withArguments (Command.run_dispatch_cons _ _ _ _))⟩

theorem runsInto_of_unknown {line w : Text} (h : Token.parse line = .ok [.word w])
    (hname : Command.ofName? (upper w) = none) : RunsInto line (.unknownCommand (upper w)) := by
  intro m
  obtain ⟨c, hinput, hrun⟩ := Act.run_execute
    (show (Act.stored line).tokens? = some _ from toOption_eq_some_iff.mpr h) m
  have hdispatch := Command.run_dispatch_word Debugger.hooks { m with console := c } w []
  rw [Command.dispatch.execute, hname] at hdispatch
  exact ⟨c, hinput, hrun.trans (Command.run_withArguments hdispatch)⟩

/-- What becomes of a remark with a text. But for the bare word it is a comment that does nothing, and the
comment has the text of the remark, as it is or but for carriage returns, depending on where these stand. -/
structure RemarkDecided (line text : Text) : Prop where
  comment : ¬IsBareRemark line →
    Token.parse line = .ok [.comment ((strip line).drop 4)] ∧ RunsSilently line
  command : IsBareRemark line →
    Token.parse line = .ok [.word (seen line)] ∧ RunsInto line (.unknownCommand "REM".toList)
  exactly : Token.parse line = .ok [.comment text] ∧ RunsSilently line ↔
    ¬IsBareRemark line ∧ '\r' ∉ strip line
  upToReturns : (∃ t, Token.parse line = .ok [.comment t] ∧ t.filter (· != '\r') = text) ∧
      RunsSilently line ↔
    ¬IsBareRemark line ∧ '\r' ∉ (strip line).take 4

theorem remarkDecided_of_bare {line : Text} (h : IsBareRemark line) : RemarkDecided line [] := by
  have hparse := parse_bareRemark h
  have hname : Command.ofName? (upper (seen line)) = none := by
    rw [h]
    decide +kernel
  have hfails := runsInto_of_unknown hparse hname
  rw [h] at hfails
  exact ⟨fun hno => absurd h hno, fun _ => ⟨hparse, hfails⟩, by simp [hparse, h], by simp [hparse, h]⟩

theorem remarkDecided_of_spaced {line r t : Text} (hr : upper r = ['R', 'E', 'M'])
    (h : seen line = r ++ ' ' :: t) : RemarkDecided line t := by
  have hparse := parse_remark hr h
  have hsilent := runsSilently_of_comment hparse
  have hbare := not_isBareRemark hr h
  have hspelled : (strip line).filter (· != '\r') = (r ++ [' ']) ++ t := by
    rw [← seen_eq_filter, h, List.append_assoc]
    rfl
  have hfour : (r ++ [' ']).length = 4 := by simp [(remark_letters hr).1]
  have hexactly := drop_eq_iff hspelled
  have hreturns := filter_drop_eq_iff hspelled
  rw [hfour] at hexactly hreturns
  refine ⟨fun _ => ⟨hparse, hsilent⟩, fun hword => absurd hword hbare, ?_, ?_⟩
  · rw [← forall_ne_return_iff, ← hexactly]
    simp [hparse, hsilent, hbare]
  · rw [← forall_ne_return_iff, ← hreturns]
    simp [hparse, hsilent, hbare]

/-- A remark of any text is a comment with that text and does nothing, exactly unless it is the bare word or
has carriage returns in it. -/
theorem remark_decided (line text : Text) (h : IsRemark line text) : RemarkDecided line text := by
  cases h with
  | bare word => exact remarkDecided_of_bare word
  | spaced r t word spelled => exact remarkDecided_of_spaced word spelled

/-- A remark that would be malformed in every way as code. -/
def oddRemark : Text := "\t rEm it's \"5 $² + 'long: &  \r\n".toList

theorem oddRemark_comments :
    IsRemark oddRemark "it's \"5 $² + 'long: &".toList ∧
      Token.parse oddRemark = .ok [.comment "it's \"5 $² + 'long: &".toList] ∧ RunsSilently oddRemark := by
  have hremark : IsRemark oddRemark "it's \"5 $² + 'long: &".toList :=
    .spaced "rEm".toList _ (by decide +kernel) (by decide +kernel)
  have hdecided := remark_decided oddRemark _ hremark
  exact ⟨hremark, hdecided.exactly.mpr (by decide +kernel)⟩

/-- The bare word is no comment, and running it fails. -/
theorem bareRemark_unknown :
    IsRemark "REM".toList [] ∧ Token.parse "REM".toList = .ok [.word "REM".toList] ∧
      ¬Token.parse "REM".toList = .ok [.comment []] ∧ ¬RunsSilently "REM".toList := by
  have hbare : IsBareRemark "REM".toList := by decide +kernel
  have hparse : Token.parse "REM".toList = .ok [.word "REM".toList] := by decide +kernel
  have hfails := ((remarkDecided_of_bare hbare).command hbare).2
  refine ⟨.bare hbare, hparse, by rw [hparse]; simp, fun hsilent => ?_⟩
  obtain ⟨_, _, hok⟩ := hsilent {}
  obtain ⟨_, _, herror⟩ := hfails {}
  rw [herror] at hok
  cases hok

end Machine
end BasicMachine
