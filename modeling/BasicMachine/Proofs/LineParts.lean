import BasicMachine.Proofs.LineLayout

/-! The parts that the splitter finds in any line. One character does one of a few things to the splitter,
and what each of them keeps holds of whole lines. A comment is found only as the single part of its line:
in other lines a space belongs to a part only behind a quotation mark or inside a character literal. -/
namespace BasicMachine

namespace Splitter

/-- Outside of comments, quotes and character literals. -/
structure Plain (s : Splitter) : Prop where
  code : s.inComment = false
  unquoted : s.inQuote = false
  free : s.inChar = false

/-- What a character can do to the splitter. -/
inductive Step (s : Splitter) (c : Char) : Splitter → Prop
  | skip (char : c = '\r' ∨ c = ' ') : Step s c s
  | remark (on : s.inComment = true) : Step s c (s.add c)
  | openQuote (code : s.inComment = false) (unquoted : s.inQuote = false) (char : c = '"') :
    Step s c { s.add c with inQuote := true }
  | closeQuote (code : s.inComment = false) (quoted : s.inQuote = true) (char : c = '"') :
    Step s c { (s.add c).flush with inQuote := false }
  | quoted (code : s.inComment = false) (quoted : s.inQuote = true) (char : c ≠ '"') :
    Step s c (s.add c)
  | openChar (plain : s.Plain) (char : c = '\'') : Step s c { s.add c with inChar := true }
  | closeChar (code : s.inComment = false) (unquoted : s.inQuote = false) (char : c = '\'') :
    Step s c { (s.add c).flush with inChar := false }
  | inChar (code : s.inComment = false) (unquoted : s.inQuote = false) (literal : s.inChar = true)
    (short : s.word.length ≤ 2) (char : c ∉ ['"', '\'']) : Step s c (s.add c)
  | first (plain : s.Plain) (empty : s.word = []) (char : c ∉ [' ', '"', '\'', '&']) :
    Step s c (s.add c)
  | firstRef (plain : s.Plain) (empty : s.word = []) (char : c = '&') :
    Step s c { s.add c with glue := true }
  | beginRemark (plain : s.Plain) (char : c = ' ') (remark : s.atRemark = true) :
    Step s c { s.add c with inComment := true }
  | space (plain : s.Plain) (ne : s.word ≠ []) (apart : s.glue = false) (char : c = ' ')
    (code : s.atRemark = false) : Step s c s.flush
  | more (plain : s.Plain) (ne : s.word ≠ []) (char : c ∉ [' ', '"', '\''])
    (taken : isAlphanumeric c = true ∨ s.glue = true) : Step s c { s.add c with glue := false }
  | colon (plain : s.Plain) (ne : s.word ≠ []) (apart : s.glue = false) (char : c = ':') :
    Step s c (s.add c).flush
  | symbol (plain : s.Plain) (ne : s.word ≠ []) (apart : s.glue = false)
    (char : c ∉ [' ', '"', '\'', ':']) (other : isAlphanumeric c = false) :
    Step s c { s.flush with parts := s.parts ++ [s.word, [c]] }

theorem step_cases {s s' : Splitter} {c : Char} (h : s.step c = .ok s') : Step s c s' := by
  unfold step at h
  split at h
  · next hc =>
    cases h
    exact .skip (.inl hc)
  split at h
  · next hcomment =>
    cases h
    exact .remark hcomment
  next hcomment =>
  have hcode : s.inComment = false := by simpa using hcomment
  split at h
  · next hc =>
    split at h
    · next hquote =>
      cases h
      exact .closeQuote hcode hquote hc
    · next hquote =>
      cases h
      exact .openQuote hcode (by simpa using hquote) hc
  next hdouble =>
  split at h
  · next hquote =>
    cases h
    exact .quoted hcode hquote hdouble
  next hquote =>
  have hunquoted : s.inQuote = false := by simpa using hquote
  split at h
  · next hc =>
    split at h
    · next hchar =>
      cases h
      exact .closeChar hcode hunquoted hc
    · next hchar =>
      cases h
      exact .openChar ⟨hcode, hunquoted, by simpa using hchar⟩ hc
  next hsingle =>
  split at h
  · next hchar =>
    split at h
    · cases h
    · next hshort =>
      cases h
      exact .inChar hcode hunquoted hchar (by omega) (by simp [hdouble, hsingle])
  next hchar =>
  have hplain : s.Plain := ⟨hcode, hunquoted, by simpa using hchar⟩
  split at h
  · next hempty =>
    have hempty' : s.word = [] := by simpa using hempty
    cases h
    unfold start
    split
    · next hc => exact .firstRef hplain hempty' hc
    split
    · next hc => exact .skip (.inr hc)
    next hamp hspace => exact .first hplain hempty' (by simp [hdouble, hsingle, hamp, hspace])
  next hempty =>
  have hne : s.word ≠ [] := by simpa using hempty
  cases h
  unfold extend
  split
  · next hc =>
    split
    · exact .skip (.inr hc)
    next hglue =>
    split
    · next hremark => exact .beginRemark hplain hc hremark
    · next hremark =>
      exact .space hplain hne (by simpa using hglue) hc (by simpa using hremark)
  next hspace =>
  split
  · next htaken =>
    exact .more hplain hne (by simp [hdouble, hsingle, hspace]) (by simpa using htaken)
  next htaken =>
  simp only [Bool.or_eq_true, not_or, Bool.not_eq_true] at htaken
  split
  · next hc => exact .colon hplain hne htaken.2 hc
  next hcolon =>
  exact .symbol hplain hne htaken.2 (by simp [hdouble, hsingle, hspace, hcolon]) htaken.1

/-- What every step keeps holds behind a text if it holds before it. -/
theorem feed_keeps {P : Splitter → Prop} (hstep : ∀ s c s', Step s c s' → P s → P s')
    {s s' : Splitter} {t : Text} (h : feed s t = .ok s') (hs : P s) : P s' := by
  induction t generalizing s with
  | nil =>
    cases h
    exact hs
  | cons c t ih =>
    cases hc : s.step c with
    | error e => simp [feed, hc] at h
    | ok s₁ =>
      rw [feed_cons hc] at h
      exact ih h (hstep s c s₁ (step_cases hc) hs)

end Splitter

theorem toNat_of_ofNat_eq {n : Nat} {d : Char} (h : Char.ofNat n = d) (hd : 0 < d.toNat) :
    n = d.toNat := by
  subst h
  unfold Char.ofNat at hd ⊢
  split
  · rfl
  · next hv =>
    rw [dif_neg hv] at hd
    exact absurd hd (by decide)

/-- The code points of the letters of `REM`. -/
def remarkCodes : List Nat := [82, 69, 77]

private theorem remark_not_mem_expansions :
    ∀ e ∈ upperExpansions, e.2 ≠ [] ∧ ∀ n ∈ remarkCodes, n ∉ e.2 := by decide +kernel

private theorem remark_outside_runs : ∀ r ∈ upperRuns, ∀ n ∈ remarkCodes,
    (n : Int) < r.first + r.shift ∨ r.last + r.shift < n := by decide +kernel

theorem upperChar_ne_nil (c : Char) : upperChar c ≠ [] := by
  unfold upperChar
  split
  · simp
  · split
    · next cs hcs =>
      obtain ⟨before, after, htable, -⟩ := List.lookup_eq_some_iff.mp hcs
      simpa using (remark_not_mem_expansions (c.toNat, cs) (by simp [htable])).1
    · split <;> simp

/-- Only ASCII letters have the letters of `REM` as their upper case. -/
theorem ascii_of_remark_mem_upperChar {c d : Char} (hd : d.toNat ∈ remarkCodes)
    (h : d ∈ upperChar c) : c.toNat < 128 := by
  have hcode : d.toNat = 82 ∨ d.toNat = 69 ∨ d.toNat = 77 := by simpa [remarkCodes] using hd
  by_contra hc
  rw [upperChar, if_neg hc] at h
  split at h
  · next cs hcs =>
    obtain ⟨n, hn, he⟩ := List.mem_map.mp h
    obtain ⟨before, after, htable, -⟩ := List.lookup_eq_some_iff.mp hcs
    have hout := (remark_not_mem_expansions (c.toNat, cs) (by simp [htable])).2 d.toNat hd
    rw [← toNat_of_ofNat_eq he (by omega)] at hout
    exact hout hn
  · split at h
    · next r hr =>
      have hin := List.find?_some hr
      have hout := remark_outside_runs r (List.mem_of_find?_eq_some hr) d.toNat hd
      have hvalue := toNat_of_ofNat_eq (List.mem_singleton.mp h).symm (by omega)
      simp only [CaseRun.contains, Bool.and_eq_true, decide_eq_true_eq] at hin
      omega
    · obtain rfl := List.mem_singleton.mp h
      omega

theorem isAlpha_of_toUpper {c : Char} (h : c.toUpper.isUpper = true) : c.isAlpha = true := by
  unfold Char.toUpper at h
  split at h
  · next hl =>
    simp only [UInt32.le_iff_toNat_le] at hl
    rw [isAlpha_iff]
    simp at hl
    omega
  · simp [Char.isAlpha, h]

/-- A text whose upper case begins with a letter of `REM` begins with that letter in one of its cases. -/
theorem upper_eq_remark_cons {t ds : Text} {d : Char} (hd : d.toNat ∈ remarkCodes)
    (h : upper t = d :: ds) : ∃ c t', t = c :: t' ∧ c.isAlpha = true ∧ upper t' = ds := by
  cases t with
  | nil => simp at h
  | cons c t' =>
    rw [upper_cons] at h
    have hmem : d ∈ upperChar c := by
      cases hc : upperChar c with
      | nil => exact absurd hc (upperChar_ne_nil c)
      | cons e es =>
        rw [hc] at h
        simp [(List.cons.inj h).1]
    rw [upperChar_ascii (ascii_of_remark_mem_upperChar hd hmem)] at h
    obtain ⟨hcd, hrest⟩ := List.cons.inj h
    have hcapital : d.isUpper = true := by
      rw [isUpper_iff]
      simp only [remarkCodes, List.mem_cons, List.not_mem_nil, or_false] at hd
      omega
    exact ⟨c, t', rfl, isAlpha_of_toUpper (hcd ▸ hcapital), hrest⟩

theorem remark_letters {t : Text} (h : upper t = ['R', 'E', 'M']) :
    t.length = 3 ∧ ∀ c ∈ t, c.isAlpha = true := by
  obtain ⟨a, t₁, rfl, ha, h₁⟩ := upper_eq_remark_cons (by decide) h
  obtain ⟨b, t₂, rfl, hb, h₂⟩ := upper_eq_remark_cons (by decide) h₁
  obtain ⟨c, t₃, rfl, hc, h₃⟩ := upper_eq_remark_cons (by decide) h₂
  cases t₃ with
  | nil => simp [ha, hb, hc]
  | cons d t₃ => exact absurd (List.append_eq_nil_iff.mp h₃).1 (upperChar_ne_nil d)

private theorem takeWhile_before_space {t : Text} (h : ' ' ∉ t) (rest : Text) :
    (t ++ ' ' :: rest).takeWhile (· != ' ') = t := by
  have hall : ∀ c ∈ t, (c != ' ') = true := by
    intro c hc
    simpa using fun he : c = ' ' => h (he ▸ hc)
  simp [List.takeWhile_append_of_pos hall]

/-- Every space stands behind a quotation mark or among the first three characters. -/
def Shielded (t : Text) : Prop := ∀ u v, t = u ++ ' ' :: v → '"' ∈ u ∨ u.length ≤ 2

namespace Shielded

theorem nil : Shielded [] := by
  intro u v h
  simp at h

theorem add {t : Text} {c : Char} (h : Shielded t) (hspace : c = ' ' → '"' ∈ t ∨ t.length ≤ 2) :
    Shielded (t ++ [c]) := by
  intro u v huv
  rcases List.eq_nil_or_concat v with rfl | ⟨v, d, rfl⟩
  · obtain ⟨rfl, hc⟩ := List.append_inj' huv rfl
    exact hspace (List.singleton_inj.mp hc)
  · rw [List.concat_eq_append, ← List.cons_append, ← List.append_assoc] at huv
    exact h u v (List.append_inj' huv rfl).1

theorem single (c : Char) : Shielded [c] := nil.add fun _ => .inr (by simp)

/-- Such a text does not begin a comment. -/
theorem not_remark {t : Text} (h : Shielded t) :
    ['R', 'E', 'M', ' '].isPrefixOf (upper t) = false := by
  by_cases hspace : ' ' ∈ t
  · obtain ⟨u, v, rfl, hu⟩ := List.eq_append_cons_of_mem hspace
    rw [Bool.eq_false_iff]
    intro hprefix
    obtain ⟨w, hw⟩ := List.isPrefixOf_iff_prefix.mp hprefix
    have hfree : ' ' ∉ upper u := by
      intro hm
      obtain ⟨c, hc, hupper⟩ := List.mem_flatMap.mp hm
      exact space_not_mem_upperChar (fun he => hu (he ▸ hc)) hupper
    have hsplit : ['R', 'E', 'M'] ++ ' ' :: w = upper u ++ ' ' :: upper v := by
      rw [upper_append] at hw
      exact hw
    have hremark := congrArg (List.takeWhile (· != ' ')) hsplit
    rw [takeWhile_before_space (by decide), takeWhile_before_space hfree] at hremark
    obtain ⟨hlength, hletters⟩ := remark_letters hremark.symm
    rcases h u v rfl with hquote | hshort
    · exact absurd (hletters '"' hquote) (by decide)
    · omega
  · exact not_remark_of_no_space hspace

end Shielded

namespace Splitter

/-- What tells comments from code: a comment is the only part, and spaces in code are shielded. -/
structure Guarded (s : Splitter) : Prop where
  quoted : s.inComment = false → s.inQuote = true → '"' ∈ s.word
  remark : s.inComment = true →
    s.parts = [] ∧ ∃ r v, s.word = r ++ ' ' :: v ∧ upper r = ['R', 'E', 'M']
  word : s.inComment = false → Shielded s.word
  parts : ∀ p ∈ s.parts, Shielded p

namespace Guarded

theorem initial : Guarded {} := ⟨by simp, by simp, fun _ => .nil, by simp⟩

variable {s : Splitter} {c : Char}

theorem parts_concat (h : Guarded s) {w : Text} (hw : Shielded w) :
    ∀ p ∈ s.parts ++ [w], Shielded p := by
  simpa [or_imp, forall_and, hw] using h.parts

theorem step (s : Splitter) (c : Char) (s' : Splitter) (hstep : Step s c s') (h : Guarded s) :
    Guarded s' := by
  cases hstep with
  | skip => exact h
  | remark on =>
    obtain ⟨hparts, r, v, hword, hr⟩ := h.remark on
    exact ⟨by simp [add, on], fun _ => ⟨hparts, r, v ++ [c], by simp [add, hword], hr⟩,
      by simp [add, on], h.parts⟩
  | openQuote code unquoted char =>
    exact ⟨by simp [add, char], by simp [add, code], fun _ => (h.word code).add (by simp [char]), h.parts⟩
  | closeQuote code quoted char =>
    exact ⟨by simp, by simp [add, flush, code], fun _ => .nil,
      h.parts_concat ((h.word code).add (by simp [char]))⟩
  | quoted code quoted char =>
    have hquote := h.quoted code quoted
    exact ⟨by simp [add, hquote], by simp [add, code],
      fun _ => (h.word code).add fun _ => .inl hquote, h.parts⟩
  | openChar plain char =>
    exact ⟨by simp [add, plain.unquoted], by simp [add, plain.code],
      fun _ => (h.word plain.code).add (by simp [char]), h.parts⟩
  | closeChar code unquoted char =>
    exact ⟨by simp [add, flush, unquoted], by simp [add, flush, code], fun _ => .nil,
      h.parts_concat ((h.word code).add (by simp [char]))⟩
  | inChar code unquoted literal short char =>
    exact ⟨by simp [add, unquoted], by simp [add, code],
      fun _ => (h.word code).add fun _ => .inr short, h.parts⟩
  | first plain empty char =>
    have hc : c ≠ ' ' := by simp_all
    exact ⟨by simp [add, plain.unquoted], by simp [add, plain.code],
      fun _ => (h.word plain.code).add (by simp [hc]), h.parts⟩
  | firstRef plain empty char =>
    exact ⟨by simp [add, plain.unquoted], by simp [add, plain.code],
      fun _ => (h.word plain.code).add (by simp [char]), h.parts⟩
  | beginRemark plain char remark =>
    simp only [atRemark, Bool.and_eq_true, List.isEmpty_iff, beq_iff_eq] at remark
    exact ⟨by simp, fun _ => ⟨remark.1, s.word, [], by simp [add, char], remark.2⟩, by simp, h.parts⟩
  | space plain ne apart char code =>
    exact ⟨by simp [flush, plain.unquoted], by simp [flush, plain.code], fun _ => .nil,
      h.parts_concat (h.word plain.code)⟩
  | more plain ne char taken =>
    have hc : c ≠ ' ' := by simp_all
    exact ⟨by simp [add, plain.unquoted], by simp [add, plain.code],
      fun _ => (h.word plain.code).add (by simp [hc]), h.parts⟩
  | colon plain ne apart char =>
    exact ⟨by simp [add, flush, plain.unquoted], by simp [add, flush, plain.code], fun _ => .nil,
      h.parts_concat ((h.word plain.code).add (by simp [char]))⟩
  | symbol plain ne apart char other =>
    refine ⟨by simp [flush, plain.unquoted], by simp [flush, plain.code], fun _ => .nil, ?_⟩
    simpa [or_imp, forall_and, h.word plain.code, Shielded.single] using h.parts

end Guarded

/-- The parts of a line: a comment and nothing else, or parts none of which is a comment. -/
theorem splitLine_cases {line : Text} {parts : List Text} {s : Splitter}
    (hfeed : feed {} (strip line) = .ok s) (hfinish : s.finish = .ok parts) :
    (∃ r v, parts = [r ++ ' ' :: v] ∧ upper r = ['R', 'E', 'M']) ∨
      s.inComment = false ∧ ∀ p ∈ parts, Shielded p := by
  have h : Guarded s := feed_keeps Guarded.step hfeed .initial
  unfold finish at hfinish
  split at hfinish
  · cases hfinish
  cases hfinish
  cases hcomment : s.inComment with
  | true =>
    obtain ⟨hparts, r, v, hword, hr⟩ := h.remark hcomment
    exact .inl ⟨r, v, by simp [hparts, hword], hr⟩
  | false =>
    refine .inr ⟨rfl, ?_⟩
    split
    · exact h.parts
    · exact h.parts_concat (h.word hcomment)

end Splitter
end BasicMachine
