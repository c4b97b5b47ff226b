import BasicMachine.Proofs.DecodingFaults

/-! What splitting keeps of a line. Every character goes into the word that is being read, into a part of its own
or nowhere, and the last happens to carriage returns and to spaces only. So the parts put together are the line
again, without its carriage returns and without some of its spaces. -/
namespace BasicMachine

/-- The second text is the first one without its carriage returns and without some of its spaces. -/
inductive Thinned : Text → Text → Prop
  | nil : Thinned [] []
  | keep {t u : Text} (c : Char) (char : c ≠ '\r') (rest : Thinned t u) : Thinned (c :: t) (c :: u)
  | leave {t u : Text} (c : Char) (char : c = '\r' ∨ c = ' ') (rest : Thinned t u) : Thinned (c :: t) u

namespace Thinned

variable {t u : Text}

theorem filter_eq (h : Thinned t u) :
    u.filter (· != ' ') = t.filter fun c => c != ' ' && c != '\r' := by
  induction h with
  | nil => rfl
  | keep c char rest ih => simp [List.filter_cons, ih, char]
  | leave c char rest ih =>
    rcases char with rfl | rfl
    · simpa using ih
    · simpa using ih

theorem sublist (h : Thinned t u) : u.Sublist (t.filter (· != '\r')) := by
  induction h with
  | nil => exact .slnil
  | keep c char rest ih =>
    rw [List.filter_cons_of_pos (by simpa using char)]
    exact ih.cons_cons c
  | leave c char rest ih => exact ih.trans ((List.sublist_cons_self c _).filter _)

end Thinned

namespace Splitter

/-- All that the splitter holds of the characters it was fed. -/
def held (s : Splitter) : Text := s.parts.flatten ++ s.word

theorem held_add (s : Splitter) (c : Char) : (s.add c).held = s.held ++ [c] := by
  simp [held, add]

theorem held_flush (s : Splitter) : s.flush.held = s.held := by
  simp [held, flush]

/-- A character is added behind all others, or it is a space and nothing is added. -/
theorem Step.held {s s' : Splitter} {c : Char} (h : Step s c s') :
    s'.held = s.held ++ [c] ∨ s'.held = s.held ∧ (c = '\r' ∨ c = ' ') := by
  cases h with
  | skip char => exact .inr ⟨rfl, char⟩
  | space plain ne apart char code => exact .inr ⟨held_flush s, .inr char⟩
  | symbol => simp [Splitter.held, flush]
  | closeQuote | closeChar | colon => exact .inl ((held_flush _).trans (held_add s c))
  | _ => exact .inl (held_add s c)

theorem held_step {s s' : Splitter} {c : Char} (h : s.step c = .ok s') :
    s'.held = s.held ++ [c] ∧ c ≠ '\r' ∨ s'.held = s.held ∧ (c = '\r' ∨ c = ' ') := by
  by_cases hreturn : c = '\r'
  · have hskip : s.step c = .ok s := by rw [step, if_pos hreturn]
    rw [hskip, Except.ok.injEq] at h
    exact .inr ⟨by rw [h], .inl hreturn⟩
  · rcases (step_cases h).held with hadded | hleft
    · exact .inl ⟨hadded, hreturn⟩
    · exact .inr hleft

/-- Behind a text the splitter holds what it held before, and that text thinned. -/
theorem held_feed {s s' : Splitter} {t : Text} (h : feed s t = .ok s') :
    ∃ u, Thinned t u ∧ s'.held = s.held ++ u := by
  induction t generalizing s with
  | nil =>
    cases h
    exact ⟨[], .nil, by simp⟩
  | cons c t ih =>
    cases hc : s.step c with
    | error e => simp [feed, hc] at h
    | ok s₁ =>
      rw [feed_cons hc] at h
      obtain ⟨u, hthin, hheld⟩ := ih h
      rcases held_step hc with ⟨hadded, hchar⟩ | ⟨hleft, hchar⟩
      · exact ⟨c :: u, .keep c hchar hthin, by simp [hheld, hadded]⟩
      · exact ⟨u, .leave c hchar hthin, by rw [hheld, hleft]⟩

theorem flatten_of_finish {s : Splitter} {parts : List Text} (h : s.finish = .ok parts) :
    parts.flatten = s.held := by
  unfold finish at h
  split at h
  · cases h
  cases h
  split
  · next hword => simp [held, List.isEmpty_iff.mp hword]
  · simp [held]

end Splitter

theorem thinned_flatten {line : Text} {parts : List Text} (h : splitLine line = .ok parts) :
    Thinned (strip line) parts.flatten := by
  obtain ⟨s, hfeed, hfinish⟩ := Token.splitLine_eq_ok h
  obtain ⟨u, hthin, hheld⟩ := Splitter.held_feed hfeed
  have hparts : parts.flatten = u := (Splitter.flatten_of_finish hfinish).trans hheld
  rwa [hparts]

/-- The parts of a line, none of them empty, are the line without the blanks around it, cut into pieces: what
is not a space or a carriage return is there once and in its order, and nothing comes in between but spaces
that were there before. -/
theorem splitLine_conserves (line : Text) (parts : List Text) (h : splitLine line = .ok parts) :
    (∀ p ∈ parts, p ≠ []) ∧
      parts.flatten.filter (· != ' ') = (strip line).filter (fun c => c != ' ' && c != '\r') ∧
      parts.flatten.Sublist ((strip line).filter (· != '\r')) :=
  ⟨splitLine_ne_nil h, (thinned_flatten h).filter_eq, (thinned_flatten h).sublist⟩

/-- Of the spaces of this line those in its two literals are kept, and its carriage returns are dropped in the
quote too. -/
theorem splitLine_conserves_literals :
    ∃ parts, splitLine "  POKE & $1 ' ' :\rX \"a\r b\"\r\n".toList = .ok parts ∧ parts.length = 5 ∧
      parts.flatten = "POKE&$1' ':X\"a b\"".toList ∧ (∀ p ∈ parts, p ≠ []) ∧
      parts.flatten.filter (· != ' ') = (strip "  POKE & $1 ' ' :\rX \"a\r b\"\r\n".toList).filter
        (fun c => c != ' ' && c != '\r') := by
  have hsplit : splitLine "  POKE & $1 ' ' :\rX \"a\r b\"\r\n".toList =
      .ok ["POKE".toList, "&$1".toList, "' '".toList, ":X".toList, "\"a b\"".toList] := by decide +kernel
  obtain ⟨hne, hcharacters, -⟩ := splitLine_conserves _ _ hsplit
  exact ⟨_, hsplit, rfl, by decide, hne, hcharacters⟩

end BasicMachine
