import BasicMachine.Proofs.AssignedValues
import BasicMachine.Proofs.FileListing
import BasicMachine.Proofs.OutsideVariables
import BasicMachine.Proofs.Scrolling

/-! The colour of printed text. `INK` puts a colour into the palette, but text is printed in the colour of the
screen, which no command sets, and the keyword of that name stands for a setting that none makes. So whatever
has been run before, text comes out light grey on black and the keyword is zero. -/
namespace BasicMachine

namespace ColourPair

theorem toNat_lt (p : ColourPair) : p.toNat < 256 := by
  have htext := p.text.toNat_lt
  have hbackground := p.background.toNat_lt
  unfold toNat
  omega

private theorem toNat_ofInt_of_all : ∀ c < 256, (ofInt (c : Nat)).map toNat = .ok c := by
  decide +kernel

theorem exists_ofInt {c : Nat} (hc : c < 256) : ∃ p, ofInt c = .ok p ∧ p.toNat = c := by
  have hcode := toNat_ofInt_of_all c hc
  cases hp : ofInt c with
  | error e =>
    rw [hp] at hcode
    exact absurd hcode (by simp [Except.map])
  | ok p =>
    rw [hp] at hcode
    exact ⟨p, rfl, Except.ok.inj hcode⟩

theorem eq_plainColour_iff (p : ColourPair) : plainColour = p ↔ p.toNat = 7 := by
  constructor
  · rintro rfl
    rfl
  · intro h
    have hp := ofInt_toNat p
    rw [h] at hp
    exact Except.ok.inj hp

end ColourPair

namespace Call

variable {m : Machine} {ts : List Token} {k : Int} {t : Token}

theorem run_expectArguments_one (h : Arguments.Has ts k t) :
    (expectArguments 1).run ⟨m, ⟨ts, k⟩⟩ = (.ok (), ⟨m, ⟨ts, k⟩⟩) := by
  have hlength := h.lt_length
  have hmore : ¬k + 1 > ts.length := by omega
  rw [expectArguments, Run.run_bind_ok (Run.run_get _)]
  exact congrArg (Run.run · _) (if_neg hmore)

theorem run_hasSymbolIs {s : Text} (h : Arguments.Has ts k (.symbol s)) (wanted : Text) :
    (hasSymbolIs wanted).run ⟨m, ⟨ts, k⟩⟩ = (.ok (s == wanted), ⟨m, ⟨ts, k⟩⟩) := by
  simp [hasSymbolIs, look, Run.run_bind, Run.run_map, h.current, Token.toSymbol]

end Call

theorem Cursor.OnScreen.offset_advance {c : Cursor} (h : c.OnScreen) (hlast : c.offset + 1 < 2000) :
    c.advance.offset = c.offset + 1 := by
  have hcols : c.limit.col = 80 := by rw [h.limit]
  have hrows : c.limit.row = 25 := by rw [h.limit]
  have hcol := h.col
  have hoffset := h.offset
  unfold Cursor.advance
  dsimp only
  rw [hcols]
  split
  · unfold Cursor.newline
    dsimp only
    rw [hrows, if_neg (by omega)]
    unfold Cursor.fixOffset
    dsimp only
    rw [hcols]
    omega
  · rfl

/-- The place of a cell, by its number in reading order. -/
def Position.ofCell (k : Nat) : Position := ⟨(k % 80 : Nat), (k / 80 : Nat)⟩

theorem Cursor.OnScreen.place_move {c : Cursor} (h : c.OnScreen) {k : Nat} (hk : k < 2000) :
    ((c.move (.ofCell k)).row * 80 + (c.move (.ofCell k)).col).toNat = k := by
  have hcols : c.limit.col = 80 := by rw [h.limit]
  have hrows : c.limit.row = 25 := by rw [h.limit]
  simp only [Cursor.move, Cursor.fixOffset, Cursor.clamp, Position.ofCell, hcols, hrows]
  rw [if_neg (by omega), if_neg (by omega), if_neg (by omega), if_neg (by omega)]
  omega

namespace Screen

def withText (s : Screen) (t : Text) (p : ColourPair) : List (Char × ColourPair) :=
  s.picture.take s.here ++ t.map (·, p) ++ s.picture.drop (s.here + t.length)

/-- A text that is not empty shows its colour. -/
theorem withText_eq_iff (s : Screen) (t : Text) (p q : ColourPair) :
    s.withText t p = s.withText t q ↔ t = [] ∨ p = q := by
  rw [withText, withText, List.append_left_inj, List.append_right_inj]
  cases t with
  | nil => simp
  | cons c t =>
    constructor
    · intro h
      rw [List.map_cons, List.map_cons, List.cons.injEq, Prod.mk.injEq] at h
      exact .inr h.1.2
    · rintro (h | rfl)
      · exact absurd h (by simp)
      · rfl

theorem getElem?_withText {s : Screen} {t : Text} {j : Nat} (hhere : s.here ≤ s.cells.size) (hj : j < t.length)
    (p : ColourPair) : (s.withText t p)[s.here + j]? = some (t[j], p) := by
  have hfront : (s.picture.take s.here).length = s.here := by
    rw [List.length_take, length_picture]
    omega
  rw [withText, List.append_assoc, List.getElem?_append_right (by omega), hfront, Nat.add_sub_cancel_left,
    List.getElem?_append_left (by simpa using hj), List.getElem?_map, List.getElem?_eq_getElem hj]
  rfl

theorem colour_of_picture {s : Screen} {k : Nat} {c : Char} {p : ColourPair}
    (h : s.picture[k]? = some (c, p)) : (s.cells.get k).colour = p := by
  rw [getElem?_picture] at h
  split at h
  · exact (Prod.ext_iff.mp (Option.some.inj h)).2
  · exact absurd h (by simp)

theorem picture_putAt (s : Screen) (i : Nat) (c : Char) (p : ColourPair) :
    (s.modifyCell i (Cell.put c p)).picture = s.picture.set i (c, p) := by
  apply List.ext_getElem?
  intro k
  rw [getElem?_picture, size_modifyCell, get_modifyCell, List.getElem?_set, getElem?_picture, length_picture]
  by_cases hk : k = i
  · subst hk
    simp [Cell.put]
  · simp [hk, Ne.symm hk]

theorem picture_putChar (s : Screen) (p : ColourPair) {c : Char} (hc : c ≠ '\n') :
    (s.putChar p c).picture = s.picture.set s.here (c, p) := by
  rw [putChar, if_neg hc, advanceCursor_eq, ← picture_putAt]
  exact picture_drawMark (s.modifyCell s.here (Cell.put c p)) false

namespace Consistent

variable {s : Screen} (h : s.Consistent)
include h

theorem here_putChar (p : ColourPair) {c : Char} (hc : c ≠ '\n') (hlast : s.here + 1 < 2000) :
    (s.putChar p c).here = s.here + 1 := by
  have hbounds := h.offset_bounds
  have hcursor : (s.putChar p c).cursor = s.cursor.advance := by
    rw [Screen.putChar, if_neg hc, cursor_advanceCursor]
    rfl
  unfold here at hlast ⊢
  rw [hcursor, h.cursor.offset_advance (by omega)]
  omega

/-- A text without line breaks goes over what is there, as long as it ends in front of the last cell. -/
theorem picture_print {t : Text} (ht : '\n' ∉ t) (hfits : s.here + t.length < 2000) (p : ColourPair) :
    (s.print t p).picture = s.withText t p := by
  unfold Screen.print
  induction t generalizing s with
  | nil => simp [withText]
  | cons c t ih =>
    rw [List.mem_cons, not_or] at ht
    rw [List.length_cons] at hfits
    obtain ⟨hc, ht⟩ := ht
    have hhere := h.here_putChar p (Ne.symm hc) (by omega)
    have hinside : s.here < s.picture.length := by
      rw [length_picture, h.size]
      unfold columns rows
      omega
    have hfront : (s.picture.set s.here (c, p)).take (s.here + 1) = s.picture.take s.here ++ [(c, p)] := by
      rw [List.take_add_one, List.take_set_of_le (Nat.le_refl _), List.getElem?_set_self hinside]
      rfl
    have hback : (s.picture.set s.here (c, p)).drop (s.here + 1 + t.length) =
        s.picture.drop (s.here + (t.length + 1)) := by
      rw [List.drop_set_of_lt (by omega), Nat.add_assoc, Nat.add_comm 1]
    rw [List.foldl_cons, ih (h.putChar p c) ht (by omega), withText, hhere, picture_putChar s p (Ne.symm hc),
      hfront, hback, withText, List.map_cons, List.length_cons]
    simp

theorem colour_cursorCell_moveCursor {k : Nat} (hk : k < 2000) :
    (s.moveCursor (.ofCell k)).cursorCell.colour = (s.cells.get k).colour := by
  have hcell : (s.moveCursor (.ofCell k)).cursorCell = (s.moveCursor (.ofCell k)).cells.get k := by
    have hplace := h.cursor.place_move hk
    rw [cursorCell, cursor_moveCursor]
    exact congrArg _ hplace
  have hpicture : (s.moveCursor (.ofCell k)).picture = s.picture := by
    rw [moveCursor_eq]
    exact picture_drawMark s false
  have hshown : s.picture[k]? = some ((s.cells.get k).char, (s.cells.get k).colour) := by
    rw [getElem?_picture, h.size, if_pos]
    exact hk
  rw [← hpicture] at hshown
  rw [hcell, colour_of_picture hshown]

end Consistent

end Screen

/-- The screen keeps its colour and stays in order, and of the settings only the size of the program changes. -/
def Frame.redrawing : Frame Machine where
  allows m n := m.screen.Redrawn n.screen ∧ ∀ name ≠ "prog_size".toList, n.setting name = m.setting name
  refl _ := ⟨.refl _, fun _ _ => rfl⟩
  trans h h' := ⟨h.1.trans h'.1, fun name hname => (h'.2 name hname).trans (h.2 name hname)⟩

theorem Frame.turning_redrawing : Frame.redrawing.Turning where
  aside m n h := by
    refine ⟨h.screen, fun name _ => ?_⟩
    rw [h.same]
    rfl
  quit _ := ⟨.refl _, fun _ _ => rfl⟩
  exit _ := ⟨.refl _, fun _ _ => rfl⟩
  write :=
    { byte := fun _ _ _ => ⟨.refl _, fun _ _ => rfl⟩
      block := fun _ _ _ => ⟨.refl _, fun _ _ => rfl⟩
      size := fun m size => ⟨.refl _, fun name hname => by
        rw [Machine.setting, Machine.setting, lookup_setNamed, if_neg hname]⟩ }
  course _ _ _ _ := ⟨.refl _, fun _ _ => rfl⟩

namespace Machine

/-- The machines that come about from a fresh one when lines are run and turns are taken. What happens from
outside leaves the memory and the settings alone. It can open and close the window and draw on the screen, but
does not set its colour. -/
inductive InUse : Machine → Prop
  | fresh {m : Machine} (memory : m.memory = Memory.fresh) (settings : m.settings = Settings.initial)
      (screen : m.screen = {}) : InUse m
  | line {m : Machine} (h : InUse m) (line : Text) : InUse ((runLine line).run m).2
  | turn {m : Machine} (h : InUse m) : InUse (turn.run m).2
  | drawn {m : Machine} (h : InUse m) {op : Screen.Operation} (colour : ∀ p, op ≠ .setColour p) :
      InUse { m with screen := Screen.Operation.after m.screen op }
  | outside {m n : Machine} (h : InUse m) (memory : n.memory = m.memory) (settings : n.settings = m.settings)
      (screen : n.screen = { m.screen with windowOpen := n.screen.windowOpen, closed := n.screen.closed }) :
      InUse n

theorem InUse.reachable {m : Machine} (h : InUse m) : Reachable m := by
  induction h with
  | fresh hmemory => exact .blank hmemory
  | line _ line ih => exact .line ih line
  | turn _ ih => exact .turn ih
  | drawn _ _ ih => exact .outside ih rfl
  | outside _ hmemory _ _ ih => exact .outside ih hmemory

/-- The screen is in order and prints light grey on black, and the setting for the keyword `INK` was never
made. -/
structure Plain (m : Machine) : Prop where
  consistent : m.screen.Consistent
  colour : m.screen.colour = plainColour
  ink : m.setting "text".toList = 0

theorem Plain.of_allows {m n : Machine} (h : Plain m) (hn : Frame.redrawing.allows m n) : Plain n where
  consistent := hn.1.consistent h.consistent
  colour := hn.1.colour.trans h.colour
  ink := (hn.2 _ (by decide)).trans h.ink

theorem InUse.plain {m : Machine} (h : InUse m) : Plain m := by
  induction h with
  | @fresh m _ hsettings hscreen =>
    refine ⟨?_, ?_, ?_⟩
    · rw [hscreen]
      exact Screen.consistent_initial
    · rw [hscreen]
    · rw [setting, hsettings]
      decide
  | line _ line ih => exact ih.of_allows (keeps_runLine Frame.turning_redrawing.toOpen line _)
  | turn _ ih => exact ih.of_allows (Frame.turning_redrawing.turn _)
  | drawn _ hcolour ih => exact ih.of_allows ⟨.after _ _ hcolour, fun _ _ => rfl⟩
  | @outside m n _ _ hsettings hscreen ih =>
    refine ih.of_allows ⟨?_, fun name _ => ?_⟩
    · rw [hscreen]
      exact .of_cells rfl rfl rfl rfl
    · rw [setting, setting, hsettings]

section Lines

variable {m : Machine} {line : Text} {t : Token}

/-- The line is a command with these arguments in front. -/
def Calls (line : Text) (c : Command) (args : List Token) : Prop :=
  ∃ w rest, Token.parse line = .ok (.word w :: (args ++ rest)) ∧ Command.ofName? (upper w) = some c

/-- `INK` changes the palette and nothing else. -/
theorem run_ink {v : Int} {p : ColourPair} (h : Calls line .ink [t]) (hv : t.toNumeric m = .ok v)
    (hp : ColourPair.ofInt v = .ok p) :
    ∃ con, (runLine line).run m =
      (.ok (), { m with palette := setNamed "text".toList p m.palette, console := con }) := by
  obtain ⟨w, rest, hparse, hcommand⟩ := h
  obtain ⟨con, hline⟩ := run_commandLine hparse hcommand m
  have hview : SameView m { m with console := con } := ⟨rfl, rfl, rfl⟩
  have hfirst : Arguments.Has (.word w :: ([t] ++ rest)) 1 t := ⟨by decide, by decide, rfl⟩
  refine ⟨con, hline (.ok ()) ⟨_, ⟨.word w :: ([t] ++ rest), 2⟩⟩ ?_⟩
  change Command.runInk.run _ = _
  simp only [Command.runInk, Call.nextNumeric, Run.run_bind, Call.run_nextAs _ hfirst, hview.toNumeric, hv,
    Run.run_ofExcept, hp, Call.run_liftM]
  rfl

theorem run_print {text : Text} (h : Calls line .print [t, .symbol [';']]) (ht : t.toString m = .ok text) :
    ∃ con n, (runLine line).run m = (.ok (), n) ∧ Printed { m with console := con } n [text] text := by
  obtain ⟨w, rest, hparse, hcommand⟩ := h
  obtain ⟨con, hline⟩ := run_commandLine hparse hcommand m
  have hview : SameView m { m with console := con } := ⟨rfl, rfl, rfl⟩
  have hfirst : Arguments.Has (.word w :: ([t, .symbol [';']] ++ rest)) 1 t := ⟨by decide, by decide, rfl⟩
  have hsecond : Arguments.Has (.word w :: ([t, .symbol [';']] ++ rest)) 2 (.symbol [';']) :=
    ⟨by decide, by decide, rfl⟩
  obtain ⟨n, hprint, hprinted⟩ := Printing.print text { m with console := con }
  refine ⟨con, n, hline (.ok ()) ⟨n, ⟨.word w :: ([t, .symbol [';']] ++ rest), 2⟩⟩ ?_, hprinted⟩
  change Command.runPrint.run _ = _
  have hstring : t.isString = true := by
    cases t <;> simp_all [Token.toString, Token.isString]
  rw [Command.runPrint, Run.run_bind_ok (Call.run_expectArguments_one hfirst)]
  simp only [Call.hasString, Call.nextString, Run.run_bind, Call.run_has _ hfirst, hstring, if_true,
    Call.run_nextAs _ hfirst, hview.toString, ht, Call.run_liftM, hprint, Int.reduceAdd, Call.run_hasSymbolIs hsecond]
  rfl

theorem run_move {col row : Int} (h : TakesNumbers m .move line col row) :
    ∃ con, (runLine line).run m =
      (.ok (), { m with screen := m.screen.moveCursor ⟨col, row⟩, console := con }) := by
  obtain ⟨w, tc, tr, rest, hparse, hcommand, hcol, hrow⟩ := h
  obtain ⟨con, hline⟩ := run_commandLine hparse hcommand m
  have hview : SameView m { m with console := con } := ⟨rfl, rfl, rfl⟩
  have hfirst : Arguments.Has (.word w :: tc :: tr :: rest) 1 tc := ⟨by decide, by decide, rfl⟩
  have hsecond : Arguments.Has (.word w :: tc :: tr :: rest) 2 tr := ⟨by decide, by decide, rfl⟩
  refine ⟨con, hline (.ok ()) ⟨_, ⟨.word w :: tc :: tr :: rest, 3⟩⟩ ?_⟩
  change Command.runMove.run _ = _
  simp only [Command.runMove, Call.nextNumeric, Run.run_bind, Call.run_nextAs _ hfirst, hview.toNumeric, hcol]
  simp only [Int.reduceAdd, Call.run_nextAs _ hsecond, hview.toNumeric, hrow, Call.run_liftM]
  rfl

theorem run_cursorColour (hsize : 17664 ≤ m.memory.size) {i : Fin 26}
    (h : Calls line .cursorColour [.numericVar (numericName i)]) :
    ∃ n, (runLine line).run m = (.ok (), n) ∧
      n.numeric (numericName i) = .ok m.screen.cursorCell.colour.toNat := by
  obtain ⟨w, rest, hparse, hcommand⟩ := h
  obtain ⟨con, hline⟩ := run_commandLine hparse hcommand m
  obtain ⟨n, hset, hvalue, -⟩ := exists_setNumeric (m := { m with console := con }) (i := i) hsize
    m.screen.cursorCell.colour.toNat
  have hfirst : Arguments.Has (.word w :: ([.numericVar (numericName i)] ++ rest)) 1
      (.numericVar (numericName i)) := ⟨by decide, by decide, rfl⟩
  have hsmall := m.screen.cursorCell.colour.toNat_lt
  refine ⟨n, hline (.ok ()) ⟨n, ⟨.word w :: ([.numericVar (numericName i)] ++ rest), 2⟩⟩ ?_, ?_⟩
  · change Command.runCursorColour.run _ = _
    simp only [Command.runCursorColour, Call.putNumeric, Call.nextNumericVar, Run.run_bind, Run.run_get,
      Call.run_nextAs _ hfirst, Token.toNumericVar, Call.run_liftM, hset]
    rfl
  · rw [hvalue]
    congr 1
    omega

theorem run_move_cursorColour {ask : Text} (hsize : 17664 ≤ m.memory.size) (hm : m.screen.Consistent) {k : Nat}
    (hk : k < 2000) {i : Fin 26}
    (hmove : TakesNumbers m .move line (Position.ofCell k).col (Position.ofCell k).row)
    (hask : Calls ask .cursorColour [.numericVar (numericName i)]) :
    ∃ n₁ n₂, (runLine line).run m = (.ok (), n₁) ∧ (runLine ask).run n₁ = (.ok (), n₂) ∧
      n₂.numeric (numericName i) = .ok (m.screen.cells.get k).colour.toNat := by
  obtain ⟨con, hmoved⟩ := run_move hmove
  obtain ⟨n₂, hasked, hvalue⟩ := run_cursorColour
    (m := { m with screen := m.screen.moveCursor (.ofCell k), console := con }) hsize hask
  rw [hm.colour_cursorCell_moveCursor hk] at hvalue
  exact ⟨_, n₂, hmoved, hasked, hvalue⟩

end Lines

/-- What came of a text that was printed from `m` on, after `INK` with the code `c` of the colours `p`. The text
is on the screen, light grey on black. So the cells have the colours `p`, and `CURSCOL` gives `c` on them, only
if these are the same; and the keyword `INK` is zero. -/
structure PrintedPlain (m n : Machine) (t : Text) (c : Nat) (p : ColourPair) : Prop where
  picture : n.screen.picture = m.screen.withText t plainColour
  cells : n.screen.picture = m.screen.withText t p ↔ t = [] ∨ c = 7
  asked : ∀ j < t.length, ∀ moveLine askLine i,
    TakesNumbers n .move moveLine (Position.ofCell (m.screen.here + j)).col
      (Position.ofCell (m.screen.here + j)).row →
    Calls askLine .cursorColour [.numericVar (numericName i)] →
    ∃ n₁ n₂, (runLine moveLine).run n = (.ok (), n₁) ∧ (runLine askLine).run n₁ = (.ok (), n₂) ∧
      (n₂.numeric (numericName i) = .ok c ↔ c = 7)
  keyword : (Token.word "INK".toList).toNumeric n = .ok c ↔ c = 0

/-- Text is printed in the colours that `INK` has set exactly if these are light grey on black, and the keyword
`INK` is the code of these colours exactly if it is zero. -/
theorem ink_colours_print_iff (m : Machine) (hm : InUse m) (c : Nat) (hc : c < 256)
    (inkLine printLine t : Text) (code text : Token) (hink : Calls inkLine .ink [code])
    (hcode : code.toNumeric m = .ok c) (hprint : Calls printLine .print [text, .symbol [';']])
    (htext : text.toString m = .ok t) (hbreak : '\n' ∉ t) (hfits : m.screen.here + t.length < 2000) :
    ∃ p n₁ n, ColourPair.ofInt c = .ok p ∧ (runLine inkLine).run m = (.ok (), n₁) ∧
      (runLine printLine).run n₁ = (.ok (), n) ∧ PrintedPlain m n t c p := by
  obtain ⟨p, hp, hpc⟩ := ColourPair.exists_ofInt hc
  obtain ⟨con, hinked⟩ := run_ink hink hcode hp
  have hview : SameView m { m with palette := setNamed "text".toList p m.palette, console := con } :=
    ⟨rfl, rfl, rfl⟩
  obtain ⟨con', n, hrun, hprinted⟩ := run_print hprint ((hview.toString text).trans htext)
  have hplain := hm.plain
  have hpicture : n.screen.picture = m.screen.withText t plainColour := by
    rw [hprinted.screen, ← hplain.colour]
    exact hplain.consistent.picture_print hbreak hfits m.screen.colour
  have hconsistent : n.screen.Consistent := by
    rw [hprinted.screen]
    exact hplain.consistent.print t _
  have hmemory : n.memory = m.memory := by rw [hprinted.others]
  have hsettings : n.settings = m.settings := by rw [hprinted.others]
  refine ⟨p, _, n, hp, hinked, hrun, ?_⟩
  constructor
  case picture => exact hpicture
  case cells => rw [hpicture, Screen.withText_eq_iff, ColourPair.eq_plainColour_iff, hpc]
  case asked =>
    intro j hj moveLine askLine i hmove hask
    have hbounds := hplain.consistent.offset_bounds
    have hcell : (n.screen.cells.get (m.screen.here + j)).colour = plainColour := by
      refine Screen.colour_of_picture (c := t[j]) ?_
      rw [hpicture, Screen.getElem?_withText (by unfold Screen.here; omega) hj]
    have hsize : 17664 ≤ n.memory.size := by
      rw [hmemory]
      exact Nat.le_trans (by decide) hm.reachable.size
    obtain ⟨n₁, n₂, hmoved, hasked, hvalue⟩ := run_move_cursorColour hsize hconsistent (by omega) hmove hask
    refine ⟨n₁, n₂, hmoved, hasked, ?_⟩
    rw [hvalue, hcell, Except.ok.injEq]
    exact eq_comm
  case keyword =>
    have hvalue : (Token.word "INK".toList).toNumeric n = .ok (n.setting "text".toList) := rfl
    rw [hvalue, setting, hsettings, ← setting, hplain.ink, Except.ok.injEq]
    omega

theorem ink_colours_print_letter :
    ∃ p n₁ n, ColourPair.ofInt (4 : Nat) = .ok p ∧ (runLine "INK 4".toList).run {} = (.ok (), n₁) ∧
      (runLine "PRINT \"A\" ;".toList).run n₁ = (.ok (), n) ∧ PrintedPlain {} n ['A'] 4 p := by
  refine ink_colours_print_iff {} (.fresh rfl rfl rfl) 4 (by decide) _ _ ['A'] (.number 4)
    (.quote "\"A\"".toList) ?_ rfl ?_ rfl (by decide) (by decide)
  · exact ⟨"INK".toList, [], by decide +kernel, by decide +kernel⟩
  · exact ⟨"PRINT".toList, [], by decide +kernel, by decide +kernel⟩

/-- A blank machine after `INK 4`, which is red on black, and `PRINT "A" ;`. -/
def printedLetter : Machine :=
  ((runLine "PRINT \"A\" ;".toList).run ((runLine "INK 4".toList).run {}).2).2

/-- The letter is on the screen, but not in red, and neither `CURSCOL` nor the keyword gives 4. -/
theorem letter_not_red :
    printedLetter.palette.lookup "text".toList = some ⟨.red, .black⟩ ∧
      (printedLetter.screen.cells.get 0).char = 'A' ∧
      (printedLetter.screen.cells.get 0).colour ≠ ⟨.red, .black⟩ ∧
      ((do runLine "MOVE 0 0".toList; runLine "CURSCOL A".toList : Action Unit).run
        printedLetter).2.numeric ['A'] = .ok 7 ∧
      (Token.word "INK".toList).toNumeric printedLetter = .ok 0 := by
  decide +kernel

end Machine
end BasicMachine
