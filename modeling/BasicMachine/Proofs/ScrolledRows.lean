import BasicMachine.Screen

/-! Scrolling, cell by cell. The rows are copied in place, each over the one above it, from the top down and
from left to right. So a cell is overwritten only after it was copied itself, every copy finds the cell below as
it was at the start, and in the end what the screen shows is one row up. -/
namespace BasicMachine.Screen

/-- What the function gives for a cell depends only on that cell and those behind it. -/
def LooksAhead (f : Bank Cell → Nat → Cell) : Prop :=
  ∀ (a b : Bank Cell) (i : Nat), (∀ k, i ≤ k → a.get k = b.get k) → f a i = f b i

theorem looksAhead_raised : LooksAhead raised := by
  intro a b i h
  rw [raised, raised, h i (Nat.le_refl i), h (i + columns) (Nat.le_add_right i columns)]

theorem looksAhead_blanked (p : ColourPair) : LooksAhead (blanked p) := by
  intro a b i h
  rw [blanked, blanked, h i (Nat.le_refl i)]

/-- The cells from `start` up to `stop` are rewritten, each by what the cells held before, and the others are as
they were. -/
structure Rewritten (f : Bank Cell → Nat → Cell) (before after : Bank Cell) (start stop : Nat) : Prop where
  size : after.size = before.size
  cell : ∀ i, after.get i = if start ≤ i ∧ i < stop then f before i else before.get i

namespace Rewritten

variable {f : Bank Cell → Nat → Cell} {before after : Bank Cell} {start : Nat}

theorem nothing (f : Bank Cell → Nat → Cell) (cells : Bank Cell) (start : Nat) :
    Rewritten f cells cells start start := by
  refine ⟨rfl, fun i => ?_⟩
  rw [if_neg (by omega)]

/-- The next cell and all behind it are still those of the start when the next cell is rewritten. -/
theorem step {stop : Nat} (h : Rewritten f before after start stop) (hf : LooksAhead f)
    (hle : start ≤ stop) : Rewritten f before (after.set stop (f after stop)) start (stop + 1) := by
  have hahead : f after stop = f before stop := by
    apply hf
    intro k hk
    rw [h.cell, if_neg (by omega)]
  refine ⟨h.size, fun i => ?_⟩
  rw [Bank.get_set, hahead]
  by_cases hi : i = stop
  · subst hi
    rw [if_pos rfl, if_pos (by omega)]
  · have hsame : start ≤ i ∧ i < stop + 1 ↔ start ≤ i ∧ i < stop := by omega
    rw [if_neg hi, h.cell]
    simp only [hsame]

theorem row {y : Nat} (h : Rewritten f before after start (y * columns)) (hf : LooksAhead f)
    (hle : start ≤ y * columns) :
    Rewritten f before (rewriteRow f after y) start ((y + 1) * columns) := by
  have hcells (n : Nat) : Rewritten f before
      ((List.range n).foldl
        (fun cells x => cells.set (y * columns + x) (f cells (y * columns + x))) after)
      start (y * columns + n) := by
    induction n with
    | zero => exact h
    | succ n ih =>
      rw [List.range_succ, List.foldl_append]
      exact ih.step hf (by omega)
  rw [rewriteRow, Nat.succ_mul]
  exact hcells columns

theorem rows (hf : LooksAhead f) (cells : Bank Cell) (n : Nat) :
    Rewritten f cells ((List.range n).foldl (rewriteRow f) cells) 0 (n * columns) := by
  induction n with
  | zero =>
    rw [Nat.zero_mul]
    exact nothing f cells 0
  | succ n ih =>
    rw [List.range_succ, List.foldl_append, List.foldl_cons, List.foldl_nil]
    exact ih.row hf (Nat.zero_le _)

end Rewritten

theorem scroll_rewritten (s : Screen) :
    ∃ cells, Rewritten raised s.cells cells 0 ((rows - 1) * columns) ∧
      Rewritten (blanked s.colour) cells s.scroll.cells ((rows - 1) * columns) (rows * columns) :=
  ⟨_, Rewritten.rows looksAhead_raised s.cells (rows - 1),
    (Rewritten.nothing _ _ _).row (looksAhead_blanked s.colour) (Nat.le_refl _)⟩

/-- The cells of the scrolled screen, from those of the screen as it was. -/
theorem get_scroll (s : Screen) (i : Nat) :
    s.scroll.cells.get i =
      if i < (rows - 1) * columns then copyCell (s.cells.get (i + columns)) (s.cells.get i)
      else if i < rows * columns then (s.cells.get i).put ' ' s.colour
      else s.cells.get i := by
  obtain ⟨cells, hraised, hblanked⟩ := s.scroll_rewritten
  rw [hblanked.cell]
  by_cases habove : i < (rows - 1) * columns
  · rw [if_neg (by omega), hraised.cell, if_pos ⟨Nat.zero_le i, habove⟩, if_pos habove]
    rfl
  · have hkept : cells.get i = s.cells.get i := by rw [hraised.cell, if_neg (by omega)]
    have hlast : (rows - 1) * columns ≤ i ∧ i < rows * columns ↔ i < rows * columns := by omega
    rw [if_neg habove, blanked, hkept]
    simp only [hlast]

theorem size_scroll (s : Screen) : s.scroll.cells.size = s.cells.size := by
  obtain ⟨cells, hraised, hblanked⟩ := s.scroll_rewritten
  exact hblanked.size.trans hraised.size

theorem marked_scroll (s : Screen) (i : Nat) :
    (s.scroll.cells.get i).marked = (s.cells.get i).marked := by
  rw [get_scroll]
  split
  · rfl
  · split
    · rfl
    · rfl

/-- What a row shows: its characters and their colours. -/
def shown (s : Screen) (y : Nat) : List (Char × ColourPair) :=
  (s.row y).map fun cell => (cell.char, cell.colour)

theorem shown_eq (s : Screen) (y : Nat) :
    s.shown y = (List.range columns).map fun x =>
      ((s.cells.get (y * columns + x)).char, (s.cells.get (y * columns + x)).colour) := by
  rw [shown, row, Bank.slice, List.range'_eq_map_range, List.map_map, List.map_map]
  rfl

theorem shown_scroll (s : Screen) {y : Nat} (hy : y + 1 < rows) : s.scroll.shown y = s.shown (y + 1) := by
  rw [shown_eq, shown_eq]
  apply List.map_congr_left
  intro x hx
  have hx : x < columns := List.mem_range.mp hx
  have habove : y * columns + x < (rows - 1) * columns := by
    unfold rows columns at *
    omega
  rw [get_scroll, if_pos habove, Nat.succ_mul, Nat.add_right_comm]
  rfl

theorem shown_scroll_last (s : Screen) :
    s.scroll.shown (rows - 1) = List.replicate columns (' ', s.colour) := by
  rw [shown_eq, List.eq_replicate_iff]
  refine ⟨by rw [List.length_map, List.length_range], fun look hlook => ?_⟩
  obtain ⟨x, hx, rfl⟩ := List.mem_map.mp hlook
  have hx : x < columns := List.mem_range.mp hx
  have hlast : (rows - 1) * columns + x < rows * columns := by
    unfold rows columns at *
    omega
  rw [get_scroll, if_neg (by omega), if_pos hlast]
  rfl

/-- The screen `t` shows in every row what `s` shows in the row below, and in the last row blanks. Every cell has
the mark that it had and is to be drawn again, and beside the cells nothing changed. -/
structure OneRowUp (s t : Screen) : Prop where
  rows : ∀ y, y + 1 < Screen.rows → t.shown y = s.shown (y + 1)
  last : t.shown (Screen.rows - 1) = List.replicate columns (' ', s.colour)
  cursor : t.cursor = s.cursor
  size : t.cells.size = s.cells.size
  marks : ∀ i, (t.cells.get i).marked = (s.cells.get i).marked
  stale : ∀ i < Screen.rows * columns, (t.cells.get i).stale = true
  rest : t = { s with cells := t.cells }

/-- Whatever the screen holds, scrolling takes what it shows up by exactly one row. -/
theorem scroll_oneRowUp (s : Screen) : s.OneRowUp s.scroll where
  rows _ hy := shown_scroll s hy
  last := shown_scroll_last s
  cursor := rfl
  size := size_scroll s
  marks := marked_scroll s
  stale i hi := by
    rw [get_scroll, if_pos hi]
    split
    · rfl
    · rfl
  rest := rfl

end BasicMachine.Screen
