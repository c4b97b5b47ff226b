import BasicMachine.Proofs.FileListing
import BasicMachine.Proofs.ListChoice

/-! Lines from the keyboard. Reading a line takes the keys up to the first enter key and leaves those behind it,
so what is typed ahead is there for the next reading. The printable ones are echoed one by one and make up the
line. If there is no enter key, all keys are taken, and the program ends with the window. -/
namespace BasicMachine

/-- The characters that can be printed: digits, letters, punctuation and white space. -/
def printable : Text :=
  "0123456789abcdefghijklmnopqrstuvwxyzABCDEFGHIJKLMNOPQRSTUVWXYZ".toList ++
    "!\"#$%&'()*+,-./:;<=>?@[\\]^_`\x7b|\x7d~ \t\n\r\x0b\x0c".toList

/-- The printable characters among the codes of keys. -/
def typedIn (codes : List Int) : Text :=
  (codes.map fun k => Char.ofNat k.toNat).filter printable.contains

theorem codes_printable : List.Perm (printable.map Char.toNat) (List.range' 9 5 ++ List.range' 32 95) := by
  decide +kernel

/-- The keyboard takes the printable characters, by the ranges of their codes. -/
theorem isTypable_eq (c : Char) : isTypable c = printable.contains c := by
  have hcode : c ∈ printable ↔ c.toNat ∈ printable.map Char.toNat :=
    (List.mem_map_of_injective fun _ _ h => Char.toNat_inj.mp h).symm
  rw [Bool.eq_iff_iff, List.contains_iff_mem, hcode, codes_printable.mem_iff, List.mem_append,
    List.mem_range'_1, List.mem_range'_1]
  simp only [isTypable, Bool.or_eq_true, Bool.and_eq_true, decide_eq_true_eq]
  omega

theorem exists_charOfCode {k : Int} (h0 : 0 ≤ k) (h : k < 256) :
    ∃ c, charOfCode k = .ok c ∧ c = Char.ofNat k.toNat ∧ isTypable c = printable.contains c := by
  refine ⟨Char.ofNat k.toNat, ?_, rfl, isTypable_eq _⟩
  rw [charOfCode, if_neg (by omega), if_neg (by omega), if_neg (by omega)]

def keysOfLine (keys : List Int) : List Int := keys.takeWhile (· ≠ enterKey)

def keysBehindLine (keys : List Int) : List Int := (keys.dropWhile (· ≠ enterKey)).tail

theorem enterKey_not_mem_keysOfLine (keys : List Int) : enterKey ∉ keysOfLine keys := by
  intro hmem
  simpa using List.mem_takeWhile_imp hmem

theorem keysOfLine_append {before : List Int} (h : enterKey ∉ before) (rest : List Int) :
    keysOfLine (before ++ enterKey :: rest) = before ∧ keysBehindLine (before ++ enterKey :: rest) = rest := by
  have hall : ∀ k ∈ before, decide (k ≠ enterKey) = true := fun k hk =>
    decide_eq_true fun heq => h (heq ▸ hk)
  rw [keysOfLine, keysBehindLine, List.takeWhile_append_of_pos hall, List.dropWhile_append_of_pos hall]
  simp

theorem eq_keysOfLine_append {keys : List Int} (h : enterKey ∈ keys) :
    keys = keysOfLine keys ++ enterKey :: keysBehindLine keys := by
  obtain ⟨before, rest, rfl, hbefore⟩ := List.eq_append_cons_of_mem h
  rw [(keysOfLine_append hbefore rest).1, (keysOfLine_append hbefore rest).2]

@[simp] theorem typedIn_nil : typedIn [] = [] := rfl

theorem typedIn_cons (k : Int) (codes : List Int) :
    typedIn (k :: codes) =
      if printable.contains (Char.ofNat k.toNat) then Char.ofNat k.toNat :: typedIn codes else typedIn codes := by
  rw [typedIn, List.map_cons, List.filter_cons]
  rfl

namespace Machine

theorem Printed.withKeys {m n : Machine} {texts : List Text} {written : Text} (h : Printed m n texts written)
    (keys : List Int) : Printed { m with keys } { n with keys } texts written where
  screen := h.screen
  log := h.log
  input := h.input
  others := by rw [h.others]

theorem run_readTyped_zero {m : Machine} {rest : List Int} (hopen : m.screen.closed = false)
    (hkeys : m.keys = 0 :: rest) (typed : Text) (n : Nat) :
    (readTyped typed n).run m = (readTyped typed n).run { m with keys := rest } := by
  have hwait := run_waitKey_zero hopen hkeys
  cases n <;> rw [readTyped, Run.run_bind, Run.run_bind, hwait]

/-- Keys that are no enter key are used up: the printable ones are echoed and put behind what was typed. -/
theorem run_readTyped_append {before rest : List Int} {m : Machine} (hopen : m.screen.closed = false)
    (hkeys : m.keys = before ++ rest) (hcodes : ∀ k ∈ before, 0 ≤ k ∧ k < 256)
    (henter : enterKey ∉ before) (typed : Text) {n : Nat} (hn : before.length ≤ n) :
    ∃ m' n', (readTyped typed n).run m = (readTyped (typed ++ typedIn before) n').run m' ∧
      Printed { m with keys := rest } m' ((typedIn before).map fun c => [c]) (typedIn before) := by
  induction before generalizing m typed n with
  | nil =>
    obtain rfl : m.keys = rest := hkeys
    rw [typedIn_nil]
    refine ⟨m, n, ?_, rfl, ?_, rfl, rfl⟩
    · rw [List.append_nil]
    · rw [List.map_nil, List.map_nil, ite_self, List.append_nil]
  | cons k before ih =>
    obtain ⟨⟨h0, h256⟩, hrest⟩ := List.forall_mem_cons.mp hcodes
    obtain ⟨hk, hbefore⟩ := not_or.mp (List.mem_cons.not.mp henter)
    have hkeys' : m.keys = k :: (before ++ rest) := hkeys
    by_cases hzero : k = 0
    · -- Waiting for a key skips a zero, so this turn of the loop is not over yet.
      subst hzero
      rw [run_readTyped_zero hopen hkeys', typedIn_cons, if_neg (by decide)]
      exact ih (m := { m with keys := before ++ rest }) hopen rfl hrest hbefore typed
        (Nat.le_of_succ_le hn)
    obtain ⟨n, rfl⟩ : ∃ n', n = n' + 1 := ⟨n - 1, by simp at hn; omega⟩
    have hn' : before.length ≤ n := by simpa using hn
    obtain ⟨c, hchar, rfl, hkept⟩ := exists_charOfCode h0 h256
    have hwait := run_waitKey_cons hopen hkeys' hzero
    rw [readTyped, Run.run_bind_ok hwait, if_neg (Ne.symm hk), hchar,
      Run.run_bind_ok (Run.run_ofExcept _ _), typedIn_cons, ← hkept]
    cases hkeep : isTypable (Char.ofNat k.toNat) with
    | false =>
      exact ih (m := { m with keys := before ++ rest }) hopen rfl hrest hbefore typed hn'
    | true =>
      obtain ⟨m₁, hprint, hprinted⟩ := Printing.print [Char.ofNat k.toNat] { m with keys := before ++ rest }
      have hkeys₁ : m₁.keys = before ++ rest := by rw [hprinted.others]
      have hopen₁ : m₁.screen.closed = false := by
        rw [hprinted.screen, (Screen.Drawn.print ..).closed]
        exact hopen
      obtain ⟨m', n', hrun, hrest'⟩ := ih hopen₁ hkeys₁ hrest hbefore (typed ++ [Char.ofNat k.toNat]) hn'
      refine ⟨m', n', ?_, (hprinted.withKeys rest).trans hrest'⟩
      rw [if_pos rfl, Run.run_bind_ok hprint, hrun, List.append_assoc]
      rfl

/-- The prints of a prompt: there is none for an empty one. -/
def promptTexts (prompt : Text) : List Text := if prompt = [] then [] else [prompt]

theorem run_readText (m : Machine) (prompt : Text) :
    ∃ k, Printed m k (promptTexts prompt) prompt ∧
      (readText prompt).run m = (do
        let t ← readTyped [] m.keys.length
        newline
        return t).run k := by
  unfold promptTexts
  by_cases h : prompt = []
  · subst h
    refine ⟨m, ⟨rfl, ?_, rfl, rfl⟩, rfl⟩
    rw [if_pos rfl, List.map_nil, ite_self, List.append_nil]
  · obtain ⟨k, hrun, hprinted⟩ := Printing.print prompt m
    have hkeys : k.keys = m.keys := by rw [hprinted.others]
    rw [if_neg h]
    refine ⟨k, hprinted, ?_⟩
    rw [readText, if_pos h, Run.run_bind_ok hrun, ← hkeys]
    rfl

/-- What reading a line behind a prompt does with the keys that are waiting. -/
structure TakesLine (m : Machine) (prompt : Text) : Prop where
  /-- The keys up to the first enter key are taken. The printable ones are the line, and are echoed one by one;
  then a new line begins on the screen. -/
  line : m.screen.closed = false → enterKey ∈ m.keys →
    ∃ n, (readText prompt).run m = (.ok (typedIn (keysOfLine m.keys)), n) ∧
      Printed { m with keys := keysBehindLine m.keys } n
        (promptTexts prompt ++ (typedIn (keysOfLine m.keys)).map fun c => [c])
        (prompt ++ typedIn (keysOfLine m.keys) ++ ['\n'])
  /-- Without an enter key all keys are taken and echoed, and the closing of the window ends the program. -/
  unended : m.screen.closed = false → enterKey ∉ m.keys →
    ∃ n, (readText prompt).run m = (.error .closed, { n with screen := { n.screen with closed := true } }) ∧
      Printed { m with keys := [] } n (promptTexts prompt ++ (typedIn m.keys).map fun c => [c])
        (prompt ++ typedIn m.keys)
  /-- With the window closed before, the program ends at the first key. -/
  closed : m.screen.closed = true →
    ∃ n, (readText prompt).run m = (.error .closed, n) ∧
      Printed { m with keys := m.keys.tail } n (promptTexts prompt) prompt
  /-- Lines that are typed ahead come out one after another. -/
  ahead : m.screen.closed = false → ∀ (lines : List (List Int)) (rest : List Int), (∀ line ∈ lines, enterKey ∉ line) →
    m.keys = (lines.flatMap fun line => line ++ [enterKey]) ++ rest →
    ∃ n, (lines.mapM fun _ => readText prompt).run m = (.ok (lines.map typedIn), n) ∧ n.keys = rest

section Lines

variable {m : Machine} {prompt : Text}

theorem Printed.closed {n : Machine} {texts : List Text} {written : Text} (h : Printed m n texts written) :
    n.screen.closed = m.screen.closed := by
  rw [h.screen, (Screen.Drawn.print ..).closed]

theorem run_readTyped_error {n : Machine} {e : Fault} (h : waitKey.run m = (.error e, n)) (typed : Text)
    (count : Nat) : (readTyped typed count).run m = (.error e, n) := by
  cases count with
  | zero => exact Run.run_bind_error h
  | succ count => exact Run.run_bind_error h

theorem run_waitKey_nil (hkeys : m.keys = []) :
    waitKey.run m = (.error .closed, { m with screen := { m.screen with closed := true } }) := by
  change (waitKeyIn m.keys).run m = _
  rw [hkeys]
  change (_, { m with keys := [], screen := { m.screen with closed := true } }) = _
  rw [← hkeys]

theorem run_waitKey_closed (hclosed : m.screen.closed = true) :
    waitKey.run m = (.error .closed, { m with keys := m.keys.tail }) := by
  cases hkeys : m.keys with
  | nil =>
    rw [run_waitKey_nil hkeys, ← hclosed]
    change (_, m) = (_, { m with keys := [] })
    rw [← hkeys]
  | cons k rest => simp [waitKey, waitKeyIn, Run.run_bind, hkeys, hclosed]

/-- Up to the first enter key a line is read; what is left of the work is the key itself, if there is one. -/
theorem run_readText_keys (prompt : Text) (hopen : m.screen.closed = false)
    (hcodes : ∀ k ∈ m.keys, 0 ≤ k ∧ k < 256) {before rest : List Int} (hkeys : m.keys = before ++ rest)
    (hbefore : enterKey ∉ before) :
    ∃ k n, Printed { m with keys := rest } k (promptTexts prompt ++ (typedIn before).map fun c => [c])
        (prompt ++ typedIn before) ∧
      (readText prompt).run m = (do
        let t ← readTyped (typedIn before) n
        newline
        return t).run k := by
  obtain ⟨k, hprompt, hread⟩ := run_readText m prompt
  have hopen' : k.screen.closed = false := hprompt.closed.trans hopen
  have hkeys' : k.keys = before ++ rest := by rw [hprompt.others, ← hkeys]
  have hbytes : ∀ k ∈ before, 0 ≤ k ∧ k < 256 := fun k hk => hcodes k (by rw [hkeys]; simp [hk])
  obtain ⟨k', n, hrun, hprinted⟩ := run_readTyped_append hopen' hkeys' hbytes hbefore []
    (n := m.keys.length) (by rw [hkeys]; simp)
  refine ⟨k', n, (hprompt.withKeys rest).trans hprinted, ?_⟩
  rw [hread, Run.run_bind, Run.run_bind, hrun]
  rfl

theorem run_readText_line (prompt : Text) (hopen : m.screen.closed = false)
    (hcodes : ∀ k ∈ m.keys, 0 ≤ k ∧ k < 256) {before rest : List Int}
    (hkeys : m.keys = before ++ enterKey :: rest) (hbefore : enterKey ∉ before) :
    ∃ n, (readText prompt).run m = (.ok (typedIn before), n) ∧
      Printed { m with keys := rest } n (promptTexts prompt ++ (typedIn before).map fun c => [c])
        (prompt ++ typedIn before ++ ['\n']) := by
  obtain ⟨k, n, hprinted, hread⟩ := run_readText_keys prompt hopen hcodes hkeys hbefore
  have hopen' : k.screen.closed = false := hprinted.closed.trans hopen
  have hwait : waitKey.run k = (.ok enterKey, { k with keys := rest }) :=
    run_waitKey_cons hopen' (by rw [hprinted.others]) (by decide)
  have htyped : (readTyped (typedIn before) n).run k = (.ok (typedIn before), { k with keys := rest }) := by
    cases n with
    | zero => exact Run.run_bind_ok hwait
    | succ n => exact Run.run_bind_ok hwait
  obtain ⟨n', hbreak, hend⟩ := Printing.newline { k with keys := rest }
  refine ⟨n', ?_, ?_⟩
  · rw [hread, Run.run_bind_ok htyped, Run.run_bind_ok hbreak]
    rfl
  · have hall := (hprinted.withKeys rest).trans hend
    rwa [List.append_nil] at hall

theorem run_readText_unended (hopen : m.screen.closed = false) (hcodes : ∀ k ∈ m.keys, 0 ≤ k ∧ k < 256)
    (henter : enterKey ∉ m.keys) :
    ∃ n, (readText prompt).run m = (.error .closed, { n with screen := { n.screen with closed := true } }) ∧
      Printed { m with keys := [] } n (promptTexts prompt ++ (typedIn m.keys).map fun c => [c])
        (prompt ++ typedIn m.keys) := by
  obtain ⟨k, n, hprinted, hread⟩ :=
    run_readText_keys prompt hopen hcodes (List.append_nil _).symm henter
  have hnone : k.keys = [] := by rw [hprinted.others]
  refine ⟨k, ?_, hprinted⟩
  rw [hread, Run.run_bind_error (run_readTyped_error (run_waitKey_nil hnone) _ n)]

theorem run_readText_closed (hclosed : m.screen.closed = true) :
    ∃ n, (readText prompt).run m = (.error .closed, n) ∧
      Printed { m with keys := m.keys.tail } n (promptTexts prompt) prompt := by
  obtain ⟨k, hprompt, hread⟩ := run_readText m prompt
  have hkeys : k.keys = m.keys := by rw [hprompt.others]
  have hwait := run_waitKey_closed (hprompt.closed.trans hclosed)
  refine ⟨{ k with keys := m.keys.tail }, ?_, hprompt.withKeys _⟩
  rw [hread, Run.run_bind_error (run_readTyped_error hwait _ _), hkeys]

/-- Each reading begins where the one before it has stopped. -/
theorem run_readText_lines (lines : List (List Int)) {rest : List Int} (hopen : m.screen.closed = false)
    (hcodes : ∀ k ∈ m.keys, 0 ≤ k ∧ k < 256) (hlines : ∀ line ∈ lines, enterKey ∉ line)
    (hkeys : m.keys = (lines.flatMap fun line => line ++ [enterKey]) ++ rest) :
    ∃ n, (lines.mapM fun _ => readText prompt).run m = (.ok (lines.map typedIn), n) ∧ n.keys = rest := by
  induction lines generalizing m with
  | nil => exact ⟨m, rfl, hkeys⟩
  | cons line lines ih =>
    obtain ⟨hline, hothers⟩ := List.forall_mem_cons.mp hlines
    have hfirst : m.keys = line ++ enterKey :: ((lines.flatMap fun line => line ++ [enterKey]) ++ rest) := by
      rw [hkeys, List.flatMap_cons, List.append_assoc, List.append_assoc]
      rfl
    obtain ⟨k, hread, hprinted⟩ := run_readText_line prompt hopen hcodes hfirst hline
    have hleft : k.keys = (lines.flatMap fun line => line ++ [enterKey]) ++ rest := by rw [hprinted.others]
    obtain ⟨n, hrun, hn⟩ := ih (hprinted.closed.trans hopen)
      (fun a ha => hcodes a (by rw [hfirst, ← hleft]; simp [ha])) hothers hleft
    refine ⟨n, ?_, hn⟩
    rw [List.mapM_cons, Run.run_bind_ok hread, Run.run_bind_ok hrun]
    rfl

end Lines

/-- Reading takes one line and no more. -/
theorem readText_takes_line (m : Machine) (prompt : Text) (hcodes : ∀ k ∈ m.keys, 0 ≤ k ∧ k < 256) :
    TakesLine m prompt where
  line hopen henter :=
    run_readText_line prompt hopen hcodes (eq_keysOfLine_append henter) (enterKey_not_mem_keysOfLine _)
  unended hopen henter := run_readText_unended hopen hcodes henter
  closed hclosed := run_readText_closed hclosed
  ahead hopen lines _ hlines hkeys := run_readText_lines lines hopen hcodes hlines hkeys

/-- `HI` with a zero, a backspace and the next line typed ahead. -/
theorem readText_takes_line_ahead :
    (∀ k ∈ [72, 0, 8, 73, 13, 65, 13], 0 ≤ k ∧ k < (256 : Int)) ∧
      TakesLine { keys := [72, 0, 8, 73, 13, 65, 13] } ['?', ' '] ∧
      ((readText ['?', ' ']).run { keys := [72, 0, 8, 73, 13, 65, 13] }).1 = .ok ['H', 'I'] ∧
      ((readText ['?', ' ']).run { keys := [72, 0, 8, 73, 13, 65, 13] }).2.keys = [65, 13] := by
  refine ⟨by decide, readText_takes_line _ _ (by decide), by decide +kernel, by decide +kernel⟩
end Machine
end BasicMachine
