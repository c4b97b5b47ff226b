import BasicMachine.Proofs.Decoding

/-! What the tokens of a line lose of its parts. A symbol that begins a word takes up what sticks to it, and
its token drops all of that again. So the tokens stand for all of the parts exactly if no symbol at the
start of a word has a letter, a digit, a colon or a quotation mark directly behind it. -/
namespace BasicMachine

namespace Token

def ReadsAsCode (part : Text) : Prop := ∃ token, decode part = .ok token ∧ token.isComment = false

/-- If the part is read as code, something of it is lost. -/
def Lossy (part : Text) : Prop := ReadsAsCode part → kept part ≠ part

theorem lossy_of_reference {t : Text} (h : '"' ∈ t ∨ '\'' ∈ t) : Lossy ('&' :: t) := by
  rintro ⟨token, hdecode, hcode⟩ -
  cases decoded_of_decode hdecode with
  | number c t first n value => exact absurd first (by decide)
  | numericVar c letter => exact absurd letter (by decide)
  | comment => cases hcode
  | label c t first last => exact absurd first (by decide)
  | word c t letters => exact absurd (letters '&' (by simp)) (by decide)
  | symbol c t kind => exact absurd kind (by decide)
  | stringRef t c tight digit =>
    have hmem (d : Char) (hd : d ∈ t) (hspace : (d != ' ') = true) : d ∈ ['&', '$', c] :=
      tight ▸ List.mem_filter.mpr ⟨List.mem_cons_of_mem _ hd, hspace⟩
    rcases h with h | h
    · have hc : '"' = c := by simpa using hmem '"' h rfl
      rw [← hc] at digit
      exact absurd digit (by decide)
    · have hc : '\'' = c := by simpa using hmem '\'' h rfl
      rw [← hc] at digit
      exact absurd digit (by decide)

/-- A part that ends with a quotation mark, has an apostrophe and does not begin as a quote is read at
most as a symbol. -/
theorem lossy_of_marks {part : Text} (hsingle : '\'' ∈ part) (hlast : part.getLast? = some '"')
    (hhead : part.head? ≠ some '"') : Lossy part := by
  rintro ⟨token, hdecode, hcode⟩ hkept
  have hdouble : '"' ∈ part := List.mem_of_getLast? hlast
  cases decoded_of_decode hdecode with
  | stringVar c digit => simp_all
  | number c t first n value => exact Text.quote_not_mem_of_readInteger? value hdouble
  | quote t last => exact hhead rfl
  | char c => simp at hlast
  | numericVar c letter => simp_all
  | comment => cases hcode
  | label c t first last =>
    rw [hlast] at last
    exact absurd last (by decide)
  | word c t letters => exact absurd (letters '"' hdouble) (by decide)
  | stringRef t c tight digit =>
    exact lossy_of_reference (.inl (by simpa using hdouble)) ⟨_, hdecode, hcode⟩ hkept
  | symbol c t kind =>
    simp only [kept, kind, if_true] at hkept
    simp_all

/-- The text is a symbol and nothing else. -/
def isSymbolWord : Text → Bool
  | [c] => isSymbolStart c
  | _ => false

/-- One more character is lost exactly if something is lost already or the text is a symbol. -/
theorem kept_concat_ne_iff (t : Text) (c : Char) :
    kept (t ++ [c]) ≠ t ++ [c] ↔ kept t ≠ t ∨ isSymbolWord t = true := by
  cases t with
  | nil => simp [kept, isSymbolWord]
  | cons d t =>
    cases t with
    | nil => simp [kept, isSymbolWord]
    | cons e t => simp [kept, isSymbolWord]

theorem not_isSymbolWord_of_mem {t : Text} {c : Char} (hc : c ∈ t) (h : isSymbolStart c = false) :
    isSymbolWord t = false := by
  cases t with
  | nil => rfl
  | cons d t =>
    cases t with
    | nil =>
      obtain rfl := List.mem_singleton.mp hc
      exact h
    | cons e t => rfl

/-- Characters that go on with a word, whatever it is. -/
def sticks (c : Char) : Bool := isAlphanumeric c || [':', '"', '\''].contains c

end Token

namespace Splitter

open Token

/-- Something of a part or of the word so far is lost. -/
def Loses (s : Splitter) : Prop := (∃ p ∈ s.parts, kept p ≠ p) ∨ kept s.word ≠ s.word

/-- Where the flags of the splitter are out of step with the word, a part is lossy. -/
structure Tidy (s : Splitter) : Prop where
  unquoted : s.inComment = false → s.inQuote = false → '"' ∉ s.word
  literal : s.inChar = true →
    (∃ u v, s.word = u ++ '\'' :: v ∧ '"' ∉ u) ∨ ∃ p ∈ s.parts, Lossy p
  reference : s.glue = true → (∃ t, s.word = '&' :: t) ∨ ∃ p ∈ s.parts, Lossy p

namespace Tidy

theorem initial : Tidy {} := ⟨by simp, by simp, by simp⟩

theorem literal_add {s : Splitter} (h : Tidy s) (on : s.inChar = true) (c : Char) :
    (∃ u v, s.word ++ [c] = u ++ '\'' :: v ∧ '"' ∉ u) ∨ ∃ p ∈ s.parts, Lossy p := by
  rcases h.literal on with ⟨u, v, hword, hu⟩ | hparts
  · exact .inl ⟨u, v ++ [c], by simp [hword], hu⟩
  · exact .inr hparts

theorem reference_add {s : Splitter} (h : Tidy s) (on : s.glue = true) (c : Char) :
    (∃ t, s.word ++ [c] = '&' :: t) ∨ ∃ p ∈ s.parts, Lossy p := by
  rcases h.reference on with ⟨t, hword⟩ | hparts
  · exact .inl ⟨t ++ [c], by simp [hword]⟩
  · exact .inr hparts

theorem exists_lossy_concat {parts : List Text} {w : Text}
    (h : Lossy w ∨ ∃ p ∈ parts, Lossy p) : ∃ p ∈ parts ++ [w], Lossy p := by
  rcases h with hw | ⟨p, hp, hlossy⟩
  · exact ⟨w, by simp, hw⟩
  · exact ⟨p, by simp [hp], hlossy⟩

theorem step (s : Splitter) (c : Char) (s' : Splitter) (hstep : Step s c s') (h : Tidy s) :
    Tidy s' := by
  cases hstep with
  | skip => exact h
  | remark on =>
    exact ⟨by simp [add, on], fun hon => h.literal_add hon c, fun hon => h.reference_add hon c⟩
  | openQuote code unquoted char =>
    exact ⟨by simp, fun hon => h.literal_add hon c, fun hon => h.reference_add hon c⟩
  | closeQuote code quoted char =>
    subst char
    refine ⟨by simp [flush], fun hon => .inr (exists_lossy_concat ?_),
      fun hon => .inr (exists_lossy_concat ?_)⟩
    · rcases h.literal hon with ⟨u, v, hword, hu⟩ | hparts
      · refine .inl (lossy_of_marks (by simp [add, hword]) (by simp [add]) ?_)
        cases u with
        | nil => simp [add, hword]
        | cons d u =>
          rw [List.mem_cons, not_or] at hu
          simp [add, hword, Ne.symm hu.1]
      · exact .inr hparts
    · rcases h.reference hon with ⟨t, hword⟩ | hparts
      · have hpart : (s.add '"').word = '&' :: (t ++ ['"']) := by simp [add, hword]
        exact .inl (hpart ▸ lossy_of_reference (.inl (by simp)))
      · exact .inr hparts
  | quoted code quoted char =>
    exact ⟨by simp [add, quoted], fun hon => h.literal_add hon c, fun hon => h.reference_add hon c⟩
  | openChar plain char =>
    have hword := h.unquoted plain.code plain.unquoted
    exact ⟨by simp [add, char, hword], fun _ => .inl ⟨s.word, [], by simp [add, char], hword⟩,
      fun hon => h.reference_add hon c⟩
  | closeChar code unquoted char =>
    subst char
    refine ⟨by simp [flush], by simp, fun hon => .inr (exists_lossy_concat ?_)⟩
    rcases h.reference hon with ⟨t, hword⟩ | hparts
    · have hpart : (s.add '\'').word = '&' :: (t ++ ['\'']) := by simp [add, hword]
      exact .inl (hpart ▸ lossy_of_reference (.inr (by simp)))
    · exact .inr hparts
  | inChar code unquoted literal short char =>
    have hc : c ≠ '"' := by simp_all
    have hword := h.unquoted code unquoted
    exact ⟨by simp [add, hword, Ne.symm hc], fun hon => h.literal_add hon c,
      fun hon => h.reference_add hon c⟩
  | first plain empty char =>
    have hc : c ≠ '"' := by simp_all
    exact ⟨by simp [add, empty, Ne.symm hc], by simp [add, plain.free],
      fun hon => h.reference_add hon c⟩
  | firstRef plain empty char =>
    exact ⟨by simp [add, empty, char], by simp [add, plain.free],
      fun _ => .inl ⟨[], by simp [add, empty, char]⟩⟩
  | beginRemark plain char remark =>
    exact ⟨by simp, by simp [add, plain.free], fun hon => h.reference_add hon c⟩
  | space plain ne apart char code =>
    exact ⟨by simp [flush], by simp [flush, plain.free], by simp [flush, apart]⟩
  | more plain ne char taken =>
    have hc : c ≠ '"' := by simp_all
    have hword := h.unquoted plain.code plain.unquoted
    exact ⟨by simp [add, hword, Ne.symm hc], by simp [add, plain.free], by simp⟩
  | colon plain ne apart char =>
    exact ⟨by simp [flush], by simp [add, flush, plain.free], by simp [add, flush, apart]⟩
  | symbol plain ne apart char other =>
    exact ⟨by simp [flush], by simp [flush, plain.free], by simp [flush, apart]⟩

end Tidy

theorem Step.inComment_mono {s s' : Splitter} {c : Char} (h : Step s c s')
    (hs : s.inComment = true) : s'.inComment = true := by
  cases h <;> simp [add, flush, hs]

theorem Step.parts_subset {s s' : Splitter} {c : Char} (h : Step s c s') :
    ∀ p ∈ s.parts, p ∈ s'.parts := by
  intro p hp
  cases h <;> simp [add, flush, hp]

theorem loses_add (s : Splitter) (c : Char) :
    (s.add c).Loses ↔ s.Loses ∨ isSymbolWord s.word = true := by
  simp only [Loses, add, kept_concat_ne_iff, or_assoc]

theorem loses_flush (s : Splitter) : s.flush.Loses ↔ s.Loses := by
  simp [Loses, flush, kept, or_and_right, exists_or]

theorem loses_add_of_sticks (s : Splitter) {c : Char} (hc : sticks c = true) :
    (s.add c).Loses ↔ s.Loses ∨ isSymbolWord s.word = true ∧ sticks c = true := by
  simp [loses_add, hc]

theorem loses_add_of_not_symbol (s : Splitter) (c : Char)
    (h : isSymbolWord s.word = false ∨ ∃ p ∈ s.parts, kept p ≠ p) :
    (s.add c).Loses ↔ s.Loses ∨ isSymbolWord s.word = true ∧ sticks c = true := by
  rw [loses_add]
  rcases h with h | h
  · simp [h]
  · have hloses : s.Loses := .inl h
    simp [hloses]

/-- The next character makes the splitter lose something exactly if it sticks to a symbol. -/
theorem Step.loses_iff {s s' : Splitter} {c : Char} (h : Step s c s') (htidy : Tidy s)
    (hguarded : Guarded s) (hcode : s'.inComment = false) (hreads : ∀ p ∈ s.parts, ReadsAsCode p) :
    s'.Loses ↔ s.Loses ∨ isSymbolWord s.word = true ∧ sticks c = true := by
  -- A lossy part in front has lost something already, whatever the next character does.
  have hlost (hlossy : ∃ p ∈ s.parts, Lossy p) : ∃ p ∈ s.parts, kept p ≠ p := by
    obtain ⟨p, hp, hlossy⟩ := hlossy
    exact ⟨p, hp, hlossy (hreads p hp)⟩
  cases h with
  | skip char =>
    have hc : sticks c = false := by rcases char with rfl | rfl <;> rfl
    simp [hc]
  | remark on => simp [add, on] at hcode
  | openQuote code unquoted char => exact loses_add_of_sticks s (by rw [char]; rfl)
  | closeQuote code quoted char => exact (loses_flush _).trans (loses_add_of_sticks s (by rw [char]; rfl))
  | quoted code quoted char =>
    exact loses_add_of_not_symbol s c
      (.inl (not_isSymbolWord_of_mem (hguarded.quoted code quoted) rfl))
  | openChar plain char => exact loses_add_of_sticks s (by rw [char]; rfl)
  | closeChar code unquoted char => exact (loses_flush _).trans (loses_add_of_sticks s (by rw [char]; rfl))
  | inChar code unquoted literal short char =>
    apply loses_add_of_not_symbol s c
    rcases htidy.literal literal with ⟨u, v, hword, -⟩ | hlossy
    · exact .inl (not_isSymbolWord_of_mem (show '\'' ∈ s.word by simp [hword]) rfl)
    · exact .inr (hlost hlossy)
  | first plain empty char => exact loses_add_of_not_symbol s c (.inl (by rw [empty]; rfl))
  | firstRef plain empty char => exact loses_add_of_not_symbol s c (.inl (by rw [empty]; rfl))
  | beginRemark => cases hcode
  | space plain ne apart char code =>
    have hc : sticks c = false := char ▸ rfl
    simp [loses_flush, hc]
  | more plain ne char taken =>
    rcases taken with halphanumeric | hglue
    · exact loses_add_of_sticks s (by simp [sticks, halphanumeric])
    · apply loses_add_of_not_symbol s c
      rcases htidy.reference hglue with ⟨t, hword⟩ | hlossy
      · exact .inl (not_isSymbolWord_of_mem (show '&' ∈ s.word by simp [hword]) rfl)
      · exact .inr (hlost hlossy)
  | colon plain ne apart char =>
    exact (loses_flush _).trans (loses_add_of_sticks s (by rw [char]; rfl))
  | symbol plain ne apart char other =>
    have hc : sticks c = false := by
      simp only [List.mem_cons, List.not_mem_nil, or_false, not_or] at char
      simp [sticks, other, char]
    simp [Loses, kept, hc, or_and_right, exists_or, flush]

/-- Feeding the characters to the splitter, one of them comes to stick to a symbol. -/
def gluesFrom (s : Splitter) : Text → Bool
  | [] => false
  | c :: rest => isSymbolWord s.word && sticks c ||
      match s.step c with
      | .ok s' => gluesFrom s' rest
      | .error _ => false

theorem loses_feed_iff {s s' : Splitter} {t : Text} (h : feed s t = .ok s') (htidy : Tidy s)
    (hguarded : Guarded s) (hcode : s'.inComment = false) (hreads : ∀ p ∈ s'.parts, ReadsAsCode p) :
    s'.Loses ↔ s.Loses ∨ s.gluesFrom t = true := by
  induction t generalizing s with
  | nil =>
    cases h
    simp [gluesFrom]
  | cons c t ih =>
    cases hc : s.step c with
    | error e => simp [feed, hc] at h
    | ok s₁ =>
      have hstep := step_cases hc
      rw [feed_cons hc] at h
      -- Parts stay and a comment goes on to the end, so both hypotheses go back to this step.
      have hparts : ∀ p ∈ s₁.parts, p ∈ s'.parts :=
        feed_keeps (P := fun s => ∀ p ∈ s₁.parts, p ∈ s.parts)
          (fun _ _ _ hs hp p hm => hs.parts_subset p (hp p hm)) h fun _ hm => hm
      have hcode₁ : s₁.inComment = false := by
        rw [Bool.eq_false_iff]
        intro hcomment
        have hlast := feed_keeps (P := fun s => s.inComment = true)
          (fun _ _ _ hs hon => hs.inComment_mono hon) h hcomment
        simp [hlast] at hcode
      have hfirst := hstep.loses_iff htidy hguarded hcode₁ fun p hp =>
        hreads p (hparts p (hstep.parts_subset p hp))
      rw [ih h (Tidy.step s c s₁ hstep htidy) (Guarded.step s c s₁ hstep hguarded), hfirst]
      simp [gluesFrom, hc, or_assoc]

end Splitter

namespace Token

/-- In the line a symbol at the start of a word has a letter, a digit, a colon or a quotation mark
directly behind it. -/
def gluesSymbol (line : Text) : Bool := Splitter.gluesFrom {} (strip line)

theorem splitLine_eq_ok {line : Text} {parts : List Text} (h : splitLine line = .ok parts) :
    ∃ s, feed {} (strip line) = .ok s ∧ s.finish = .ok parts :=
  bind_eq_ok_iff.mp h

/-- Nothing of the parts is lost exactly if no symbol at the start of a word has something stuck to it. -/
theorem kept_parts_iff {line : Text} {parts : List Text} {s : Splitter}
    (hfeed : feed {} (strip line) = .ok s) (hfinish : s.finish = .ok parts)
    (hcode : s.inComment = false) (hreads : ∀ p ∈ parts, ReadsAsCode p) :
    (∀ p ∈ parts, kept p = p) ↔ gluesSymbol line = false := by
  have hparts : parts = if s.word.isEmpty then s.parts else s.parts ++ [s.word] := by
    unfold Splitter.finish at hfinish
    split at hfinish
    · cases hfinish
    · exact (Except.ok.inj hfinish).symm
  have hsub : ∀ p ∈ s.parts, p ∈ parts := by
    intro p hp
    rw [hparts]
    split
    · exact hp
    · exact List.mem_append_left _ hp
  have hstart : ¬ Splitter.Loses {} := by simp [Splitter.Loses, kept]
  have hloses := Splitter.loses_feed_iff hfeed .initial .initial hcode fun p hp => hreads p (hsub p hp)
  have hkept : (∀ p ∈ parts, kept p = p) ↔ ¬ s.Loses := by
    rw [hparts]
    unfold Splitter.Loses
    split
    · next hempty => simp [List.isEmpty_iff.mp hempty, kept]
    · simp [or_imp, forall_and]
  rw [hkept, hloses]
  simp [hstart, gluesSymbol]

theorem forall₂_iff_of_iff {α β : Type} {R S : α → β → Prop} {Q : α → Prop} {as : List α} {bs : List β}
    (h : List.Forall₂ R as bs) (hiff : ∀ a b, R a b → (S a b ↔ Q a)) :
    List.Forall₂ S as bs ↔ ∀ a ∈ as, Q a := by
  induction h with
  | nil => simp
  | cons hab _ ih => simp [hiff _ _ hab, ih]

/-- Every token but a comment stands for what it keeps of its part, and the tokens stand for all of
their parts exactly if no symbol at the start of a word has something stuck to it. -/
theorem parts_represented_iff (line : Text) (tokens : List Token) (hparse : parse line = .ok tokens)
    (hcode : ∀ t, tokens ≠ [.comment t]) :
    ∃ parts, splitLine line = .ok parts ∧
      List.Forall₂ (fun part => Represents (kept part)) parts tokens ∧
      (List.Forall₂ Represents parts tokens ↔ gluesSymbol line = false) := by
  obtain ⟨parts, found, hsplit, hdecode, htokens⟩ := parse_eq_ok hparse
  obtain rfl : tokens = found := htokens.resolve_right fun ⟨t, ht⟩ => hcode t ht
  obtain ⟨s, hfeed, hfinish⟩ := splitLine_eq_ok hsplit
  have hread := decodeAll_eq_ok hdecode
  rcases Splitter.splitLine_cases hfeed hfinish with ⟨r, v, rfl, hr⟩ | ⟨hcomment, hshielded⟩
  · simp [decodeAll, decode_remark hr, bind, Except.bind, pure, Except.pure] at hdecode
    exact absurd hdecode.symm (hcode [])
  have hcoded : List.Forall₂ (fun part token => decode part = .ok token ∧ token.isComment = false)
      parts tokens :=
    ((List.forall₂_and_left parts tokens).mpr ⟨hshielded, hread⟩).imp fun part token h =>
      ⟨h.2, isComment_of_shielded h.1 h.2⟩
  refine ⟨parts, hsplit, hcoded.imp fun part token h =>
    (decoded_of_decode h.1).represents_kept h.2, ?_⟩
  rw [forall₂_iff_of_iff hcoded fun part token h => (decoded_of_decode h.1).represents_iff h.2]
  exact kept_parts_iff hfeed hfinish hcomment
    ((forall₂_iff_of_iff hcoded fun part token h => iff_of_true h ⟨token, h⟩).mp hcoded)

def looseLine : Text := "A=B+5 - &$2, \"x y\" < 'c' END".toList

def looseTokens : List Token :=
  [.numericVar ['A'], .symbol ['='], .numericVar ['B'], .symbol ['+'], .number 5, .symbol ['-'],
    .stringRef ['&', '$', '2'], .symbol [','], .quote "\"x y\"".toList, .symbol ['<'],
    .char ['\'', 'c', '\''], .word "END".toList]

theorem parts_represented_loose :
    parse looseLine = .ok looseTokens ∧
      ∃ parts, splitLine looseLine = .ok parts ∧ List.Forall₂ Represents parts looseTokens := by
  have hparse : parse looseLine = .ok looseTokens := by decide +kernel
  obtain ⟨parts, hsplit, -, hiff⟩ := parts_represented_iff looseLine looseTokens hparse
    (by simp [looseTokens])
  exact ⟨hparse, parts, hsplit, hiff.mpr (by decide +kernel)⟩

/-- The number behind the plus sign of `A = 5 +3` is in a part, but in no token. -/
theorem parts_lost_behind_plus :
    parse "A = 5 +3".toList =
        .ok [.numericVar ['A'], .symbol ['='], .number 5, .symbol ['+']] ∧
      splitLine "A = 5 +3".toList = .ok [['A'], ['='], ['5'], ['+', '3']] ∧
      ¬List.Forall₂ Represents [['A'], ['='], ['5'], ['+', '3']]
        [.numericVar ['A'], .symbol ['='], .number 5, .symbol ['+']] := by
  decide +kernel

end Token
end BasicMachine
