import BasicMachine.Proofs.MemorySize
import BasicMachine.Proofs.ScreenOperations

/-! When the screen scrolls. The cursor asks for scrolling once it has run off the last row, and it never stops
asking. So a new line at the bottom shifts the picture up by a row, as it should, but from then on a new line
anywhere else does so too. -/
namespace BasicMachine

namespace Cursor

def follow (c : Cursor) (ch : Char) : Cursor := if ch = '\n' then c.newline else c.advance

/-- The cursor does not run off the last row when the character is printed. -/
def Stays (c : Cursor) (ch : Char) : Prop :=
  if ch = '\n' then c.onLastLine = false else (c.onLastLine && c.onLastColumn) = false

theorem needScroll_newline {c : Cursor} (h : c.row < c.limit.row) :
    c.newline.needScroll = (c.needScroll || c.onLastLine) := by
  unfold newline onLastLine
  split
  · have hlast : c.row = c.limit.row - 1 := by omega
    simp [fixOffset, hlast]
  · have hlast : c.row ≠ c.limit.row - 1 := by omega
    simp [fixOffset, hlast]

namespace OnScreen

variable {c : Cursor} (h : c.OnScreen)
include h

theorem row_lt_limit : c.row < c.limit.row := by
  rw [h.limit]
  exact h.row.2

theorem needScroll_advance :
    c.advance.needScroll = (c.needScroll || (c.onLastLine && c.onLastColumn)) := by
  have hcol := h.col
  have hcols : c.limit.col = 80 := by rw [h.limit]
  unfold Cursor.advance onLastColumn
  dsimp only
  rw [hcols]
  split
  · have hlast : c.col = 80 - 1 := by omega
    have hrow : (({ c with col := c.col + 1, offset := c.offset + 1 } : Cursor)).row <
        c.limit.row := h.row_lt_limit
    rw [Cursor.needScroll_newline hrow, hlast]
    simp [onLastLine]
  · have hlast : (c.col == 80 - 1) = false := by simp; omega
    rw [hlast, Bool.and_false, Bool.or_false]

theorem follow (ch : Char) : (c.follow ch).OnScreen := by
  unfold Cursor.follow
  split
  · exact h.newline
  · exact h.advance

theorem needScroll_follow_iff (ch : Char) :
    (c.follow ch).needScroll = false ↔ c.needScroll = false ∧ c.Stays ch := by
  unfold Cursor.follow Stays
  split
  · rw [needScroll_newline h.row_lt_limit, Bool.or_eq_false_iff]
  · rw [h.needScroll_advance, Bool.or_eq_false_iff]

theorem needScroll_foldl_iff (t : Text) :
    (t.foldl Cursor.follow c).needScroll = false ↔
      c.needScroll = false ∧ Along Cursor.follow Stays c t :=
  foldl_iff_along (fun c : Cursor => c.needScroll = false) (fun _ ch hc => follow hc ch)
    (fun _ ch hc => needScroll_follow_iff hc ch) h t

end OnScreen
end Cursor

namespace Screen

theorem cursor_newline (s : Screen) : s.newline.cursor = s.cursor.newline := by
  rw [newline_eq]
  split <;> rfl

theorem cursor_advanceCursor (s : Screen) : s.advanceCursor.cursor = s.cursor.advance := by
  rw [advanceCursor_eq]
  rfl

theorem cursor_moveCursor (s : Screen) (p : Position) : (s.moveCursor p).cursor = s.cursor.move p := by
  rw [moveCursor_eq]
  rfl

theorem cursor_print (s : Screen) (t : Text) (p : ColourPair) :
    (s.print t p).cursor = t.foldl Cursor.follow s.cursor := by
  unfold print
  induction t generalizing s with
  | nil => rfl
  | cons ch t ih =>
    have hfirst : (s.putChar p ch).cursor = s.cursor.follow ch := by
      unfold putChar Cursor.follow
      split
      · exact cursor_newline s
      · exact cursor_advanceCursor _
    rw [List.foldl_cons, ih, hfirst, List.foldl_cons]

theorem cursor_fillRow (c : Char) (p : ColourPair) (start : Position) (n : Nat) (s : Screen) :
    ((fillRow c p start n).run s).2.cursor = s.cursor := by
  induction n generalizing s start with
  | zero => rfl
  | succ n ih =>
    rw [run_fillRow_succ]
    cases s.cellAt start with
    | error e => rfl
    | ok i => exact ih (start.right 1) (s.modifyCell i (Cell.put c p))

theorem cursor_fillRows (c : Char) (p : ColourPair) (width : Nat) (start : Position) (n : Nat)
    (s : Screen) : ((fillRows c p width start n).run s).2.cursor = s.cursor := by
  induction n generalizing s start with
  | zero => rfl
  | succ n ih =>
    have hfirst := cursor_fillRow c p start width s
    rw [fillRows]
    rcases hrun : (fillRow c p start width).run s with ⟨r, t⟩
    rw [hrun] at hfirst
    cases r with
    | error e => rwa [Run.run_bind_error hrun]
    | ok u =>
      rw [Run.run_bind_ok hrun, ih]
      exact hfirst

namespace Operation

/-- The cursor does not run off the last row in the course of the operation. -/
def StaysOn (c : Cursor) : Operation → Prop
  | print t _ => Along Cursor.follow Cursor.Stays c t
  | newline => c.onLastLine = false
  | advance => (c.onLastLine && c.onLastColumn) = false
  | _ => True

/-- An operation that neither prints nor breaks the line leaves it open whether to scroll. -/
theorem needScroll_after_iff {s : Screen} (h : s.Consistent) (op : Operation) :
    (after s op).cursor.needScroll = false ↔ s.cursor.needScroll = false ∧ op.StaysOn s.cursor := by
  cases op with
  | print t p =>
    show (s.print t p).cursor.needScroll = false ↔ _
    rw [cursor_print]
    exact h.cursor.needScroll_foldl_iff t
  | newline =>
    show s.newline.cursor.needScroll = false ↔ _
    rw [cursor_newline, Cursor.needScroll_newline h.cursor.row_lt_limit, Bool.or_eq_false_iff]
    rfl
  | advance =>
    show s.advanceCursor.cursor.needScroll = false ↔ _
    rw [cursor_advanceCursor, h.cursor.needScroll_advance, Bool.or_eq_false_iff]
    rfl
  | move p =>
    show (s.moveCursor p).cursor.needScroll = false ↔ _
    rw [cursor_moveCursor]
    exact (and_iff_left trivial).symm
  | clear =>
    show s.clear.cursor.needScroll = false ↔ _
    rw [Screen.clear, cursor_moveCursor]
    exact (and_iff_left trivial).symm
  | drawMark on =>
    show (s.drawMark on).cursor.needScroll = false ↔ _
    rw [drawMark_eq]
    exact (and_iff_left trivial).symm
  | drawCursor clock =>
    show (s.drawCursor clock).cursor.needScroll = false ↔ _
    rw [Screen.drawCursor, drawMark_eq]
    exact (and_iff_left trivial).symm
  | update clock =>
    show (s.drawCursor clock).cursor.needScroll = false ↔ _
    rw [Screen.drawCursor, drawMark_eq]
    exact (and_iff_left trivial).symm
  | fill a c p =>
    show ((Screen.fillRows c p _ _ _).run s).2.cursor.needScroll = false ↔ _
    rw [cursor_fillRows]
    exact (and_iff_left trivial).symm
  | _ => exact (and_iff_left trivial).symm

theorem needScroll_afterAll_iff (ops : List Operation) :
    (afterAll {} ops).cursor.needScroll = false ↔
      Along after (fun s op => op.StaysOn s.cursor) {} ops := by
  have hall := foldl_iff_along (fun s : Screen => s.cursor.needScroll = false)
    (fun _ op hs => Consistent.after hs op) (fun _ op hs => needScroll_after_iff hs op)
    consistent_initial ops
  exact hall.trans (and_iff_right rfl)

end Operation

/-- What the cells show, in reading order. -/
def picture (s : Screen) : List (Char × ColourPair) :=
  s.cells.toList.map fun cell => (cell.char, cell.colour)

/-- The picture with every row one up and a blank row at the bottom. -/
def shiftedUp (s : Screen) : List (Char × ColourPair) :=
  s.picture.drop columns ++ List.replicate columns (' ', s.colour)

theorem getElem?_picture (s : Screen) (i : Nat) :
    s.picture[i]? =
      if i < s.cells.size then some ((s.cells.get i).char, (s.cells.get i).colour) else none := by
  rw [picture, List.getElem?_map, Bank.toList, Bank.getElem?_slice, Nat.zero_add]
  split <;> rfl

theorem length_picture (s : Screen) : s.picture.length = s.cells.size := by
  simp [picture, Bank.toList]

theorem picture_drawMark (s : Screen) (on : Bool) : (s.drawMark on).picture = s.picture := by
  apply List.ext_getElem?
  intro i
  rw [getElem?_picture, getElem?_picture]
  unfold drawMark
  split
  · rfl
  · show (if i < (s.modifyCell s.here (Cell.mark on)).cells.size then
      some (((s.modifyCell s.here (Cell.mark on)).cells.get i).char,
        ((s.modifyCell s.here (Cell.mark on)).cells.get i).colour) else none) = _
    rw [size_modifyCell, get_modifyCell]
    congr 1
    split <;> rfl

theorem picture_scroll {s : Screen} (h : s.cells.size = columns * rows) :
    s.scroll.picture = s.shiftedUp := by
  have hsize : (rows - 1) * columns + columns = s.cells.size := h.symm
  apply List.ext_getElem?
  intro i
  rw [getElem?_picture, size_scroll, shiftedUp, List.getElem?_append, List.length_drop, length_picture,
    List.getElem?_drop, getElem?_picture, List.getElem?_replicate]
  by_cases hcell : i < s.cells.size
  · have hlast : i < rows * columns := by rwa [Nat.mul_comm, ← h]
    rw [if_pos hcell, get_scroll, if_pos hlast]
    by_cases hrow : i < (rows - 1) * columns
    · rw [if_pos hrow, if_pos (by omega), if_pos (by omega), Nat.add_comm columns i]
      rfl
    · rw [if_neg hrow, if_neg (by omega), if_pos (by omega)]
      rfl
  · rw [if_neg hcell, if_neg (by omega), if_neg (by omega)]

namespace Consistent

variable {s : Screen} (h : s.Consistent)
include h

/-- A new line shifts the picture if it runs off the last row, or if the cursor ever has. -/
theorem picture_newline :
    s.newline.picture =
      if (s.cursor.needScroll || s.cursor.onLastLine) = true then s.shiftedUp else s.picture := by
  have hsame : (s.relocate s.cursor.newline).picture = s.picture := picture_drawMark s false
  rw [newline_eq, Cursor.needScroll_newline h.cursor.row_lt_limit]
  split
  · rw [picture_scroll (h.relocate h.cursor.newline).size, shiftedUp, hsame]
    rfl
  · exact hsame

theorem position_newline : s.newline.cursor.position = ⟨0, min (s.cursor.row + 1) 24⟩ := by
  have hrow := h.cursor.row
  have hrows : s.cursor.limit.row = 25 := by rw [h.cursor.limit]
  rw [cursor_newline, Cursor.newline, hrows]
  split
  · have hlast : min (s.cursor.row + 1) 24 = 25 - 1 := by omega
    rw [hlast]
    rfl
  · have hnext : min (s.cursor.row + 1) 24 = s.cursor.row + 1 := by omega
    rw [hnext]
    rfl

end Consistent

theorem newline_rest (s : Screen) :
    s.newline = { s with cells := s.newline.cells, cursor := s.newline.cursor, cursorDrawn := false } := by
  rw [newline_eq]
  split <;> rfl

/-- A new line shifts the picture up by a row if the cursor is on the last row, and leaves it as it is
otherwise. It takes the cursor to the start of the next row and changes nothing else. -/
structure ScrollsAtBottomOnly (s : Screen) : Prop where
  bottom : s.cursor.onLastLine = true → s.newline.picture = s.shiftedUp
  above : s.cursor.onLastLine = false → s.newline.picture = s.picture
  cursor : s.newline.cursor.position = ⟨0, min (s.cursor.row + 1) 24⟩
  rest : s.newline =
    { s with cells := s.newline.cells, cursor := s.newline.cursor, cursorDrawn := false }

theorem Consistent.scrollsAtBottomOnly_iff {s : Screen} (h : s.Consistent) :
    s.ScrollsAtBottomOnly ↔
      s.cursor.onLastLine = true ∨ s.cursor.needScroll = false ∨ s.shiftedUp = s.picture := by
  have hpicture := h.picture_newline
  constructor
  · intro hscrolls
    cases hlast : s.cursor.onLastLine with
    | true => exact .inl rfl
    | false =>
      cases hneed : s.cursor.needScroll with
      | false => exact .inr (.inl rfl)
      | true =>
        have hshown := hscrolls.above hlast
        rw [hpicture, hneed] at hshown
        exact .inr (.inr hshown)
  · intro hcases
    refine ⟨fun hlast => ?_, fun hlast => ?_, h.position_newline, newline_rest s⟩
    · rw [hpicture, hlast, Bool.or_true, if_pos rfl]
    · rw [hpicture, hlast, Bool.or_false]
      rcases hcases with hbottom | hneed | hsame
      · rw [hlast] at hbottom
        cases hbottom
      · rw [hneed]
        rfl
      · rw [hsame, ite_self]

/-- After any operations a new line scrolls at the bottom only, just when it is at the bottom itself, or the
cursor stayed on the screen in all of them, or the picture is the same when it is shifted. -/
theorem newline_scrolls_at_bottom_iff (ops : List Operation) :
    (Operation.afterAll {} ops).ScrollsAtBottomOnly ↔
      (Operation.afterAll {} ops).cursor.onLastLine = true ∨
        Along Operation.after (fun s op => op.StaysOn s.cursor) {} ops ∨
        (Operation.afterAll {} ops).shiftedUp = (Operation.afterAll {} ops).picture := by
  rw [(consistent_initial.afterAll ops).scrollsAtBottomOnly_iff, Operation.needScroll_afterAll_iff]

/-- A line is broken at the bottom, a letter is printed there, and the cursor goes back to the top. -/
def backAtTop : List Operation :=
  [.move ⟨0, 24⟩, .newline, .print ['A'] plainColour, .move ⟨0, 0⟩]

/-- The new line at the top takes the letter away from the last row. -/
theorem newline_scrolls_at_top : ¬(Operation.afterAll {} backAtTop).ScrollsAtBottomOnly := by
  intro h
  have hsame := congrArg (·[1920]?) (h.above (by decide +kernel))
  revert hsame
  decide +kernel

end Screen
end BasicMachine
