import BasicMachine.Proofs.ScrolledRows

/-! The screen under its operations. Its cursor is kept by row and column and by a running offset, and the
cell that shows the cursor is marked. Every operation that moves the cursor wipes the mark first, so whatever
is done to the screen, the offset is that of the row and column, and the mark is at the cursor or nowhere. -/
namespace BasicMachine

namespace Cursor

/-- The cursor is on a screen of 80 columns and 25 rows, and its offset is that of its place. -/
structure OnScreen (c : Cursor) : Prop where
  limit : c.limit = ⟨80, 25⟩
  col : 0 ≤ c.col ∧ c.col < 80
  row : 0 ≤ c.row ∧ c.row < 25
  offset : c.offset = c.row * 80 + c.col

theorem clamp_bounds {limit : Int} (h : 0 < limit) (n : Int) :
    0 ≤ clamp limit n ∧ clamp limit n < limit := by
  unfold clamp
  split
  · omega
  · split <;> omega

theorem onScreen_fixOffset {c : Cursor} (hlimit : c.limit = ⟨80, 25⟩) (hcol : 0 ≤ c.col ∧ c.col < 80)
    (hrow : 0 ≤ c.row ∧ c.row < 25) : c.fixOffset.OnScreen := by
  refine ⟨hlimit, hcol, hrow, ?_⟩
  show c.row * c.limit.col + c.col = c.row * 80 + c.col
  rw [hlimit]

/-- A new line needs no place of the column: an offset that has run past the row is counted anew. -/
theorem onScreen_newline {c : Cursor} (hlimit : c.limit = ⟨80, 25⟩) (hrow : 0 ≤ c.row ∧ c.row < 25) :
    c.newline.OnScreen := by
  have hrows : c.limit.row = 25 := by rw [hlimit]
  unfold newline
  rw [hrows]
  split
  · exact onScreen_fixOffset hlimit ⟨by simp, by simp⟩ ⟨by simp, by simp⟩
  · exact onScreen_fixOffset hlimit ⟨by simp, by simp⟩ ⟨by dsimp only; omega, by dsimp only; omega⟩

namespace OnScreen

variable {c : Cursor} (h : c.OnScreen)
include h

theorem move (p : Position) : (c.move p).OnScreen := by
  have hcols : c.limit.col = 80 := by rw [h.limit]
  have hrows : c.limit.row = 25 := by rw [h.limit]
  unfold Cursor.move
  rw [hcols, hrows]
  exact onScreen_fixOffset h.limit (clamp_bounds (by decide) p.col) (clamp_bounds (by decide) p.row)

theorem newline : c.newline.OnScreen := onScreen_newline h.limit h.row

theorem advance : c.advance.OnScreen := by
  have hcols : c.limit.col = 80 := by rw [h.limit]
  have hcol := h.col
  have hoffset := h.offset
  unfold Cursor.advance
  dsimp only
  rw [hcols]
  split
  · exact onScreen_newline h.limit h.row
  · refine ⟨h.limit, ⟨?_, ?_⟩, h.row, ?_⟩
    · dsimp only
      omega
    · dsimp only
      omega
    · dsimp only
      omega

end OnScreen
end Cursor

namespace Screen

/-- There are 25 rows of 80 cells, the cursor is on one of them, and the cells with a mark are the one at
the cursor's offset while the cursor is drawn, and none otherwise. -/
structure Consistent (s : Screen) : Prop where
  size : s.cells.size = columns * rows
  cursor : s.cursor.OnScreen
  marked : ∀ i < s.cells.size,
    (s.cells.get i).marked = true ↔ s.cursorDrawn = true ∧ (i : Int) = s.cursor.offset

theorem size_modifyCell (s : Screen) (i : Nat) (f : Cell → Cell) :
    (s.modifyCell i f).cells.size = s.cells.size := Bank.size_set ..

theorem get_modifyCell (s : Screen) (i : Nat) (f : Cell → Cell) (k : Nat) :
    (s.modifyCell i f).cells.get k = if k = i then f (s.cells.get k) else s.cells.get k := by
  rw [modifyCell, Bank.get_set]
  split
  · next h => rw [h]
  · rfl

theorem drawMark_eq (s : Screen) (on : Bool) :
    s.drawMark on = { s with cells := (s.drawMark on).cells, cursorDrawn := on } := by
  unfold drawMark
  split
  · next h => rw [h]
  · rfl

/-- The screen with the mark wiped and the cursor at another place. -/
def relocate (s : Screen) (c : Cursor) : Screen :=
  { s with cells := (s.drawMark false).cells, cursor := c, cursorDrawn := false }

theorem moveCursor_eq (s : Screen) (p : Position) : s.moveCursor p = s.relocate (s.cursor.move p) := by
  rw [moveCursor, drawMark_eq]
  rfl

theorem advanceCursor_eq (s : Screen) : s.advanceCursor = s.relocate s.cursor.advance := by
  rw [advanceCursor, drawMark_eq]
  rfl

theorem newline_eq (s : Screen) :
    s.newline = if s.cursor.newline.needScroll then (s.relocate s.cursor.newline).scroll
      else s.relocate s.cursor.newline := by
  rw [newline, drawMark_eq]
  rfl

namespace Consistent

variable {s t : Screen} (h : s.Consistent)
include h

theorem offset_bounds : 0 ≤ s.cursor.offset ∧ s.cursor.offset < s.cells.size := by
  have hcol := h.cursor.col
  have hrow := h.cursor.row
  rw [h.cursor.offset, h.size]
  unfold columns rows
  omega

theorem eq_here_iff (i : Nat) : i = s.here ↔ (i : Int) = s.cursor.offset := by
  have hbounds := h.offset_bounds
  unfold here
  omega

theorem of_marks (hsize : t.cells.size = s.cells.size) (hcursor : t.cursor = s.cursor)
    (hdrawn : t.cursorDrawn = s.cursorDrawn)
    (hmarks : ∀ i < s.cells.size, (t.cells.get i).marked = (s.cells.get i).marked) :
    t.Consistent := by
  refine ⟨hsize.trans h.size, hcursor ▸ h.cursor, fun i hi => ?_⟩
  rw [hsize] at hi
  rw [hmarks i hi, hcursor, hdrawn]
  exact h.marked i hi

theorem putAt (i : Nat) (c : Char) (p : ColourPair) : (s.modifyCell i (Cell.put c p)).Consistent := by
  refine h.of_marks (size_modifyCell ..) rfl rfl fun k _ => ?_
  rw [get_modifyCell]
  split <;> rfl

theorem drawMark (on : Bool) : (s.drawMark on).Consistent := by
  unfold Screen.drawMark
  split
  · exact h
  · next hchange =>
    refine ⟨h.size, h.cursor, fun i hi => ?_⟩
    show ((s.modifyCell s.here (Cell.mark on)).cells.get i).marked = true ↔
      on = true ∧ (i : Int) = s.cursor.offset
    rw [get_modifyCell, ← h.eq_here_iff i]
    split
    · next hhere => simp [Cell.mark, hhere]
    · next hother =>
      -- Away from the cursor there was no mark, drawn or not.
      have hfree := (not_congr (h.marked i hi)).mpr fun hmark => hother ((h.eq_here_iff i).mpr hmark.2)
      simp [hfree, hother]

theorem relocate {c : Cursor} (hc : c.OnScreen) : (s.relocate c).Consistent := by
  have hwiped := h.drawMark false
  rw [drawMark_eq] at hwiped
  refine ⟨hwiped.size, hc, fun i hi => ?_⟩
  have hfree := hwiped.marked i hi
  simp only [Bool.false_eq_true, false_and, iff_false] at hfree
  simp [Screen.relocate, hfree]

theorem moveCursor (p : Position) : (s.moveCursor p).Consistent := by
  rw [moveCursor_eq]
  exact h.relocate (h.cursor.move p)

theorem advanceCursor : s.advanceCursor.Consistent := by
  rw [advanceCursor_eq]
  exact h.relocate h.cursor.advance

theorem scroll : s.scroll.Consistent := by
  exact h.of_marks (size_scroll s) rfl rfl fun i _ => marked_scroll s i

theorem newline : s.newline.Consistent := by
  rw [newline_eq]
  split
  · exact (h.relocate h.cursor.newline).scroll
  · exact h.relocate h.cursor.newline

theorem putChar (p : ColourPair) (c : Char) : (s.putChar p c).Consistent := by
  unfold Screen.putChar
  split
  · exact h.newline
  · exact (h.putAt s.here c p).advanceCursor

theorem print (t : Text) (p : ColourPair) : (s.print t p).Consistent := by
  unfold Screen.print
  induction t generalizing s with
  | nil => exact h
  | cons c t ih => exact ih (h.putChar p c)

theorem map (f : Cell → Cell) (hf : ∀ cell, (f cell).marked = cell.marked) :
    { s with cells := s.cells.map f }.Consistent := by
  refine h.of_marks (Bank.size_map ..) rfl rfl fun i _ => ?_
  show ((s.cells.map f).get i).marked = _
  rw [Bank.get_map, hf]

theorem clear : s.clear.Consistent :=
  (h.map (Cell.put ' ' s.colour) fun _ => rfl).moveCursor ⟨0, 0⟩

theorem update (clock : Clock) : (s.update clock).Consistent := by
  have hdrawn : (s.drawCursor clock).Consistent := h.drawMark _
  have hfresh := hdrawn.map (fun cell => { cell with stale := false }) fun _ => rfl
  exact hfresh.of_marks rfl rfl rfl fun _ _ => rfl

end Consistent

theorem run_fillRow_succ (c : Char) (p : ColourPair) (start : Position) (n : Nat) (s : Screen) :
    (fillRow c p start (n + 1)).run s = match s.cellAt start with
      | .ok i => (fillRow c p (start.right 1) n).run (s.modifyCell i (Cell.put c p))
      | .error e => (.error e, s) := by
  rw [fillRow]
  simp only [Run.run_bind, Run.run_get, Run.run_ofExcept]
  cases s.cellAt start <;> rfl

theorem Consistent.cellAt {s : Screen} (h : s.Consistent) {p : Position}
    (hcol : 0 ≤ p.col ∧ p.col < 80) (hrow : 0 ≤ p.row ∧ p.row < 25) : ∃ i, s.cellAt p = .ok i := by
  refine ⟨_, place_inside ?_ ?_ ?_⟩
  · unfold columns
    omega
  · rw [h.size]
    unfold columns rows
    omega
  · unfold columns indexLimit
    omega

namespace Consistent

variable {s : Screen} (h : s.Consistent) (c : Char) (p : ColourPair)
include h

/-- Cells are filled up to the first that is off the screen, and no mark is touched. -/
theorem fillRow (start : Position) (n : Nat) : ((fillRow c p start n).run s).2.Consistent := by
  induction n generalizing s start with
  | zero => exact h
  | succ n ih =>
    rw [run_fillRow_succ]
    cases s.cellAt start with
    | error e => exact h
    | ok i => exact ih (h.putAt i c p) _

theorem fillRows (width : Nat) (start : Position) (n : Nat) :
    ((fillRows c p width start n).run s).2.Consistent := by
  induction n generalizing s start with
  | zero => exact h
  | succ n ih =>
    have hfirst := h.fillRow c p start width
    rw [Screen.fillRows]
    rcases hrun : (Screen.fillRow c p start width).run s with ⟨r, t⟩
    rw [hrun] at hfirst
    cases r with
    | error e => rwa [Run.run_bind_error hrun]
    | ok u =>
      rw [Run.run_bind_ok hrun]
      exact ih hfirst _

theorem fillRow_inside {start : Position} {n : Nat} (hcol : 0 ≤ start.col)
    (hwidth : start.col + n ≤ 80) (hrow : 0 ≤ start.row ∧ start.row < 25) :
    ((Screen.fillRow c p start n).run s).1 = .ok () := by
  induction n generalizing s start with
  | zero => rfl
  | succ n ih =>
    obtain ⟨i, hcell⟩ := h.cellAt (p := start) ⟨hcol, by omega⟩ hrow
    rw [run_fillRow_succ, hcell]
    apply ih (h.putAt i c p)
    · show 0 ≤ start.col + 1
      omega
    · show start.col + 1 + n ≤ 80
      omega
    · exact hrow

theorem fillRows_inside {width : Nat} {start : Position} {n : Nat}
    (hwidth : width = 0 ∨ 0 ≤ start.col ∧ start.col + width ≤ 80)
    (hrow : 0 ≤ start.row) (hheight : n = 0 ∨ start.row + n ≤ 25) :
    ((Screen.fillRows c p width start n).run s).1 = .ok () := by
  induction n generalizing s start with
  | zero => rfl
  | succ n ih =>
    have hfirst : ((Screen.fillRow c p start width).run s).1 = .ok () := by
      rcases hwidth with rfl | ⟨hcol, hwide⟩
      · rfl
      · exact h.fillRow_inside c p hcol hwide ⟨hrow, by omega⟩
    have hfilled := h.fillRow c p start width
    rw [Screen.fillRows]
    rcases hrun : (Screen.fillRow c p start width).run s with ⟨r, t⟩
    rw [hrun] at hfirst hfilled
    subst hfirst
    rw [Run.run_bind_ok hrun]
    apply ih hfilled
    · exact hwidth
    · show 0 ≤ start.row + 1
      omega
    · show n = 0 ∨ start.row + 1 + n ≤ 25
      omega

end Consistent

/-- What can be done to the screen. -/
inductive Operation where
  | print (t : Text) (p : ColourPair)
  | newline
  | advance
  | move (p : Position)
  | scroll
  | clear
  | showCursor (on : Bool)
  | drawMark (on : Bool)
  | drawCursor (clock : Clock)
  | update (clock : Clock)
  | fill (a : Area) (c : Char) (p : ColourPair)
  | setColour (p : ColourPair)

namespace Operation

/-- Only filling can fail. -/
def perform : Operation → Run Screen Unit
  | print t p => modify fun s => s.print t p
  | newline => modify Screen.newline
  | advance => modify Screen.advanceCursor
  | move p => modify fun s => s.moveCursor p
  | scroll => modify Screen.scroll
  | clear => modify Screen.clear
  | showCursor on => modify fun s => { s with cursorVisible := on }
  | drawMark on => modify fun s => s.drawMark on
  | drawCursor clock => modify fun s => s.drawCursor clock
  | update clock => modify fun s => s.update clock
  | fill a c p => Screen.fill a c p
  | setColour p => modify fun s => { s with colour := p }

/-- An area that is filled lies on the screen. -/
def Inside : Operation → Prop
  | fill a _ _ => 0 ≤ a.start.col ∧ a.stop.col < 80 ∧ 0 ≤ a.start.row ∧ a.stop.row < 25
  | _ => True

/-- The screen after the operation, whether it succeeded or failed. -/
def after (s : Screen) (op : Operation) : Screen := (op.perform.run s).2

def afterAll (s : Screen) (ops : List Operation) : Screen := ops.foldl after s

end Operation

theorem Consistent.after {s : Screen} (h : s.Consistent) (op : Operation) :
    (Operation.after s op).Consistent := by
  cases op with
  | print t p => exact h.print t p
  | newline => exact h.newline
  | advance => exact h.advanceCursor
  | move p => exact h.moveCursor p
  | scroll => exact h.scroll
  | clear => exact h.clear
  | showCursor on => exact h.of_marks rfl rfl rfl fun _ _ => rfl
  | drawMark on => exact h.drawMark on
  | drawCursor clock => exact h.drawMark _
  | update clock => exact h.update clock
  | fill a c p => exact h.fillRows c p _ _ _
  | setColour p => exact h.of_marks rfl rfl rfl fun _ _ => rfl

theorem Consistent.afterAll {s : Screen} (h : s.Consistent) (ops : List Operation) :
    (Operation.afterAll s ops).Consistent := by
  induction ops generalizing s with
  | nil => exact h
  | cons op ops ih => exact ih (h.after op)

theorem consistent_initial : Consistent {} := by
  refine ⟨rfl, ⟨rfl, by decide, by decide, by decide⟩, fun i _ => ?_⟩
  rw [show ({} : Screen).cells.get i = {} from Bank.get_replicate ..]
  simp

theorem Consistent.run_perform {s : Screen} (h : s.Consistent) {op : Operation} (hinside : op.Inside) :
    op.perform.run s = (.ok (), Operation.after s op) := by
  cases op with
  | fill a c p =>
    obtain ⟨hleft, hright, htop, hbottom⟩ := hinside
    refine Prod.ext (h.fillRows_inside c p ?_ htop ?_) rfl
    · unfold Area.width
      omega
    · unfold Area.height
      omega
  | _ => rfl

theorem Consistent.run_forM {s : Screen} (h : s.Consistent) {ops : List Operation}
    (hinside : ∀ op ∈ ops, op.Inside) :
    (ops.forM Operation.perform).run s = (.ok (), Operation.afterAll s ops) := by
  induction ops generalizing s with
  | nil => rfl
  | cons op ops ih =>
    obtain ⟨hfirst, hrest⟩ := List.forall_mem_cons.mp hinside
    exact (Run.run_bind_ok (h.run_perform hfirst)).trans (ih (h.after op) hrest)

/-- From its start on the screen is consistent after the operations, those included that fail, and none of
them fails if areas are filled inside the screen only. -/
structure StaysConsistent (ops : List Operation) : Prop where
  consistent : (Operation.afterAll {} ops).Consistent
  returns : (∀ op ∈ ops, op.Inside) →
    (ops.forM Operation.perform).run {} = (.ok (), Operation.afterAll {} ops)

theorem staysConsistent_of_operations (ops : List Operation) : StaysConsistent ops where
  consistent := consistent_initial.afterAll ops
  returns := consistent_initial.run_forM

def Drawn (s t : Screen) : Prop :=
  t = { s with cells := t.cells, cursor := t.cursor, cursorDrawn := t.cursorDrawn }

namespace Drawn

variable {s t u : Screen}

theorem refl (s : Screen) : Drawn s s := rfl

theorem trans (h : Drawn s t) (h' : Drawn t u) : Drawn s u := by
  rw [Drawn, h', h]

theorem colour (h : Drawn s t) : t.colour = s.colour := by rw [h]

theorem closed (h : Drawn s t) : t.closed = s.closed := by rw [h]

theorem drawMark (s : Screen) (on : Bool) : Drawn s (s.drawMark on) := by rw [Drawn, drawMark_eq]

theorem newline (s : Screen) : Drawn s s.newline := by
  rw [newline_eq]
  split <;> rfl

theorem putChar (s : Screen) (p : ColourPair) (c : Char) : Drawn s (s.putChar p c) := by
  unfold Screen.putChar
  split
  · exact newline s
  · rw [advanceCursor_eq]
    rfl

theorem print (s : Screen) (t : Text) (p : ColourPair) : Drawn s (s.print t p) := by
  induction t generalizing s with
  | nil => exact refl s
  | cons c t ih => exact (putChar s p c).trans (ih _)

theorem clear (s : Screen) : Drawn s s.clear := by
  rw [Screen.clear, moveCursor_eq]
  rfl

theorem fillRow (s : Screen) (c : Char) (p : ColourPair) (start : Position) (n : Nat) :
    Drawn s ((Screen.fillRow c p start n).run s).2 := by
  induction n generalizing start s with
  | zero => exact refl s
  | succ n ih =>
    rw [run_fillRow_succ]
    cases s.cellAt start with
    | error e => exact refl s
    | ok i => exact trans (t := s.modifyCell i (Cell.put c p)) rfl (ih _ _)

theorem fillRows (s : Screen) (c : Char) (p : ColourPair) (width : Nat) (start : Position) (n : Nat) :
    Drawn s ((Screen.fillRows c p width start n).run s).2 := by
  induction n generalizing start s with
  | zero => exact refl s
  | succ n ih =>
    have hfirst := fillRow s c p start width
    rw [Screen.fillRows]
    rcases hrun : (Screen.fillRow c p start width).run s with ⟨r, t⟩
    rw [hrun] at hfirst
    cases r with
    | error e => rwa [Run.run_bind_error hrun]
    | ok u =>
      rw [Run.run_bind_ok hrun]
      exact hfirst.trans (ih _ _)

end Drawn

/-- The screen has its colour, and it is in order if it was in order before. -/
structure Redrawn (s t : Screen) : Prop where
  colour : t.colour = s.colour
  consistent : s.Consistent → t.Consistent

namespace Redrawn

variable {s t u : Screen}

theorem refl (s : Screen) : Redrawn s s := ⟨rfl, id⟩

theorem trans (h : Redrawn s t) (h' : Redrawn t u) : Redrawn s u :=
  ⟨h'.colour.trans h.colour, fun hs => h'.consistent (h.consistent hs)⟩

theorem of_cells (hcolour : t.colour = s.colour) (hcells : t.cells = s.cells) (hcursor : t.cursor = s.cursor)
    (hdrawn : t.cursorDrawn = s.cursorDrawn) : Redrawn s t where
  colour := hcolour
  consistent h := by
    refine h.of_marks ?_ hcursor hdrawn fun i _ => ?_
    · rw [hcells]
    · rw [hcells]

/-- Only one operation sets the colour. -/
theorem after (s : Screen) (op : Operation) (h : ∀ p, op ≠ .setColour p) : Redrawn s (Operation.after s op) := by
  refine ⟨?_, fun hs => hs.after op⟩
  have hmark (on : Bool) : (s.drawMark on).colour = s.colour := (Drawn.drawMark s on).colour
  cases op with
  | print t p => exact (Drawn.print s t p).colour
  | newline => exact (Drawn.newline s).colour
  | advance => exact hmark false
  | move p => exact hmark false
  | clear => exact (Drawn.clear s).colour
  | drawMark on => exact hmark on
  | drawCursor clock => exact hmark _
  | update clock => exact hmark _
  | fill a c p => exact (Drawn.fillRows s c p _ _ _).colour
  | setColour p => exact absurd rfl (h p)
  | scroll | showCursor => rfl

end Redrawn

end Screen
end BasicMachine
