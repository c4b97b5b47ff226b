import BasicMachine.Proofs.InkColour

/-! Where printed text goes. The characters of a text fill the cells from the cursor on, row after row. At the
end of the last row the cursor goes back to the start of that row and the screen does not scroll, so what is
left of the text is printed over the last row, again and again. -/
namespace BasicMachine

namespace Cursor.OnScreen

variable {c : Cursor} (h : c.OnScreen)
include h

theorem position_eq : c.position = ⟨c.offset % 80, c.offset / 80⟩ := by
  have hcol := h.col
  have hoffset := h.offset
  have hsame : c.col = c.offset % 80 ∧ c.row = c.offset / 80 := by omega
  rw [position, hsame.1, hsame.2]

/-- From the last cell the cursor goes back to the start of the last row. -/
theorem offset_advance_eq : c.advance.offset = if c.offset = 1999 then 1920 else c.offset + 1 := by
  have hcol := h.col
  have hrow := h.row
  have hoffset := h.offset
  by_cases hlast : c.offset = 1999
  · have hcorner : c.col = 79 ∧ c.row = 24 := by omega
    simp [Cursor.advance, Cursor.newline, fixOffset, h.limit, hcorner, hlast]
  · rw [if_neg hlast, h.offset_advance (by omega)]

end Cursor.OnScreen

namespace Screen

/-- A text went into consecutive cells from the cursor on, and the cursor stands behind it. -/
structure Fills (s s' : Screen) (t : Text) (p : ColourPair) : Prop where
  text : ∀ i (h : i < t.length), s'.picture[s.here + i]? = some (t[i], p)
  others : ∀ k, k < s.here ∨ s.here + t.length ≤ k → s'.picture[k]? = s.picture[k]?
  offset : s'.cursor.offset = s.cursor.offset + t.length
  position : s'.cursor.position =
    ⟨(s.cursor.offset + t.length) % 80, (s.cursor.offset + t.length) / 80⟩

/-- The cell of the cursor when printing has carried it to the `n`-th place. -/
def landing (n : Nat) : Nat := if n < 2000 then n else 1920 + n % 80

theorem landing_succ (n : Nat) :
    landing (n + 1) = if landing n = 1999 then 1920 else landing n + 1 := by
  unfold landing
  split_ifs <;> omega

/-- Of the first `e` places, the last one that comes to lie in the cell `i`. -/
def latest (e i : Nat) : Nat := if i < 1920 then i else i + (e - 1 - i) / 80 * 80

theorem latest_landing (e : Nat) : latest (e + 1) (landing e) = e := by
  unfold latest landing
  split_ifs <;> omega

theorem latest_succ {e i : Nat} (hi : i < 2000) (h : i ≠ landing e) :
    latest (e + 1) i = latest e i ∧ latest e i ≠ e := by
  unfold landing at h
  unfold latest
  split_ifs at h ⊢ <;> omega

theorem latest_of_lt {e i : Nat} (he : e < 2000) : latest e i = i := by
  unfold latest
  split_ifs <;> omega

theorem latest_lastRow {e k : Nat} (he : 2000 ≤ e) (hrow : 1920 ≤ k) (hk : k < 2000) :
    latest e k = if landing e ≤ k then k + 80 * (e / 80 - 24 - 1) else k + 80 * (e / 80 - 24) := by
  unfold latest landing
  split_ifs <;> omega

/-- What stands at the `n`-th place, when blank rows follow the rows of the screen. -/
def extended (s : Screen) (n : Nat) : Char × ColourPair := s.picture.getD n (' ', s.colour)

/-- What stands at the `n`-th place when a text is printed from the cursor on and no row is the last. -/
def unrolled (s : Screen) (t : Text) (p : ColourPair) (n : Nat) : Char × ColourPair :=
  if n < s.here then s.extended n else (t.map (·, p)).getD (n - s.here) (s.extended n)

section Unrolled

variable (s : Screen) {t : Text} (p : ColourPair) {n : Nat}

theorem unrolled_text {j : Nat} (hj : j < t.length) : s.unrolled t p (s.here + j) = (t[j], p) := by
  simp [unrolled, List.getD_eq_getElem?_getD, hj]

theorem unrolled_outside (h : n < s.here ∨ s.here + t.length ≤ n) : s.unrolled t p n = s.extended n := by
  unfold unrolled
  split
  · rfl
  · rw [List.getD_eq_default]
    simp
    omega

theorem unrolled_concat (c : Char) :
    s.unrolled (t ++ [c]) p n = if n = s.here + t.length then (c, p) else s.unrolled t p n := by
  by_cases hout : n < s.here ∨ s.here + (t ++ [c]).length ≤ n
  · rw [List.length_append, List.length_singleton] at hout
    rw [unrolled_outside s p (by simpa using hout), if_neg (by omega), unrolled_outside s p (by omega)]
  · obtain ⟨j, rfl⟩ : ∃ j, n = s.here + j := ⟨n - s.here, by omega⟩
    have hj : j < (t ++ [c]).length := by omega
    rw [unrolled_text s p hj]
    rw [List.length_append, List.length_singleton] at hj
    by_cases hlast : j = t.length
    · simp [hlast]
    · rw [if_neg (by omega), unrolled_text s p (by omega), List.getElem_append_left (by omega)]

end Unrolled

theorem extended_of_le {s : Screen} {n : Nat} (h : s.cells.size ≤ n) : s.extended n = (' ', s.colour) := by
  rw [extended, List.getD_eq_default]
  rwa [length_picture]

theorem print_concat (s : Screen) (t : Text) (c : Char) (p : ColourPair) :
    s.print (t ++ [c]) p = (s.print t p).putChar p c := List.foldl_concat ..

def overruns (s : Screen) (t : Text) : Nat := (s.here + t.length) / 80 - 24

namespace Consistent

variable {s : Screen} (h : s.Consistent)
include h

theorem here_lt : s.here < 2000 := by
  have hbounds := h.offset_bounds
  rw [h.size] at hbounds
  unfold columns rows at hbounds
  unfold here
  omega

theorem getElem?_picture_eq {k : Nat} (hk : k < 2000) : s.picture[k]? = some (s.extended k) := by
  have hlength : k < s.picture.length := by
    rw [length_picture, h.size]
    exact hk
  rw [extended, List.getD_eq_getElem _ _ hlength, List.getElem?_eq_getElem hlength]

theorem here_putChar_eq (p : ColourPair) {c : Char} (hc : c ≠ '\n') :
    (s.putChar p c).here = if s.here = 1999 then 1920 else s.here + 1 := by
  have hbounds := h.offset_bounds
  have hcursor : (s.putChar p c).cursor = s.cursor.advance := by
    rw [Screen.putChar, if_neg hc, cursor_advanceCursor]
    rfl
  unfold here
  rw [hcursor, h.cursor.offset_advance_eq]
  split_ifs <;> omega

theorem here_print {t : Text} (ht : '\n' ∉ t) (p : ColourPair) :
    (s.print t p).here = landing (s.here + t.length) := by
  induction t using List.reverseRecOn with
  | nil => exact (if_pos h.here_lt).symm
  | append_singleton t c ih =>
    rw [List.mem_append, not_or, List.mem_singleton] at ht
    obtain ⟨ht, hc⟩ := ht
    rw [print_concat, (h.print t p).here_putChar_eq p (Ne.symm hc), ih ht, ← landing_succ, List.length_append]
    rfl

/-- Each cell shows the last place that came to lie in it. -/
theorem getElem?_picture_print {t : Text} (ht : '\n' ∉ t) (p : ColourPair) {i : Nat} (hi : i < 2000) :
    (s.print t p).picture[i]? = some (s.unrolled t p (latest (s.here + t.length) i)) := by
  induction t using List.reverseRecOn with
  | nil =>
    have hplace : latest (s.here + ([] : Text).length) i = i := latest_of_lt h.here_lt
    rw [hplace, unrolled_outside s p (Nat.lt_or_ge i s.here)]
    exact h.getElem?_picture_eq hi
  | append_singleton t c ih =>
    rw [List.mem_append, not_or, List.mem_singleton] at ht
    obtain ⟨ht, hc⟩ := ht
    have hlength : i < (s.print t p).picture.length := by
      rw [length_picture, (h.print t p).size]
      exact hi
    have hend : s.here + (t ++ [c]).length = s.here + t.length + 1 := by simp [Nat.add_assoc]
    rw [print_concat, picture_putChar _ p (Ne.symm hc), h.here_print ht, List.getElem?_set, hend]
    by_cases hcell : i = landing (s.here + t.length)
    · rw [if_pos hcell.symm, if_pos (hcell ▸ hlength), hcell, latest_landing, unrolled_concat, if_pos rfl]
    · obtain ⟨hsame, hother⟩ := latest_succ hi hcell
      rw [if_neg (Ne.symm hcell), ih ht, hsame, unrolled_concat, if_neg hother]

theorem fills_print {t : Text} (ht : '\n' ∉ t) (p : ColourPair)
    (hfits : s.cursor.offset + t.length < 2000) : s.Fills (s.print t p) t p := by
  have hbounds := h.offset_bounds
  have hhere : (s.here : Int) = s.cursor.offset := by
    unfold here
    omega
  have hoffset : (s.print t p).cursor.offset = s.cursor.offset + t.length := by
    have hend := h.here_print ht p
    have hprint := (h.print t p).offset_bounds
    rw [landing, if_pos (by omega)] at hend
    unfold here at hend hhere
    omega
  have hcell {k : Nat} (hk : k < 2000) : (s.print t p).picture[k]? = some (s.unrolled t p k) := by
    rw [h.getElem?_picture_print ht p hk, latest_of_lt (by omega)]
  constructor
  case text =>
    intro i hi
    rw [hcell (by omega), unrolled_text s p hi]
  case others =>
    intro k hk
    by_cases hin : k < 2000
    · rw [hcell hin, unrolled_outside s p hk, h.getElem?_picture_eq hin]
    · rw [getElem?_picture, getElem?_picture, (h.print t p).size, h.size]
      unfold columns rows
      rw [if_neg (by omega), if_neg (by omega)]
  case offset => exact hoffset
  case position => rw [(h.print t p).cursor.position_eq, hoffset]

theorem iterate_scroll (n : Nat) : (Screen.scroll^[n] s).Consistent ∧ (Screen.scroll^[n] s).colour = s.colour := by
  induction n with
  | zero => exact ⟨h, rfl⟩
  | succ n ih =>
    rw [Function.iterate_succ_apply']
    exact ⟨ih.1.scroll, ih.2⟩

/-- A screen that is scrolled `n` times shows what stands `n` rows below. -/
theorem getElem?_picture_iterate (n : Nat) {k : Nat} (hk : k < 2000) :
    (Screen.scroll^[n] s).picture[k]? = some (s.extended (k + 80 * n)) := by
  induction n generalizing k with
  | zero => exact h.getElem?_picture_eq hk
  | succ n ih =>
    obtain ⟨hscrolled, hcolour⟩ := h.iterate_scroll n
    have hlength : (Screen.scroll^[n] s).picture.length = 2000 := by
      rw [length_picture, hscrolled.size]
      rfl
    rw [Function.iterate_succ_apply', picture_scroll hscrolled.size, shiftedUp, hcolour,
      List.getElem?_append, List.length_drop, hlength, List.getElem?_drop, List.getElem?_replicate]
    unfold columns
    by_cases hrow : k + 80 < 2000
    · rw [if_pos (by omega), Nat.add_comm 80 k, ih hrow]
      congr 2
      omega
    · rw [if_neg (by omega), if_pos (by omega), extended_of_le]
      rw [h.size]
      unfold columns rows
      omega

end Consistent

/-- After any operations, a text without line breaks that ends in front of the last cell fills the cells from
the cursor on. -/
theorem print_fills_cells (ops : List Operation) (t : Text) (p : ColourPair) (hbreak : '\n' ∉ t)
    (hfits : (Operation.afterAll {} ops).cursor.offset + t.length < 2000) :
    (Operation.afterAll {} ops).Fills ((Operation.afterAll {} ops).print t p) t p :=
  (consistent_initial.afterAll ops).fills_print hbreak p hfits

/-- The text begins in one row and ends in the next. -/
theorem print_fills_cells_twoRows :
    '\n' ∉ "ABC".toList ∧ (Operation.afterAll {} [.move ⟨78, 3⟩]).cursor.offset + 3 < 2000 ∧
      (Operation.afterAll {} [.move ⟨78, 3⟩]).Fills
        ((Operation.afterAll {} [.move ⟨78, 3⟩]).print "ABC".toList plainColour) "ABC".toList plainColour := by
  have hbreak : '\n' ∉ "ABC".toList := by decide
  have hfits : (Operation.afterAll {} [.move ⟨78, 3⟩]).cursor.offset + 3 < 2000 := by decide +kernel
  exact ⟨hbreak, hfits, print_fills_cells [.move ⟨78, 3⟩] "ABC".toList plainColour hbreak hfits⟩

/-- The text stands in front of the cursor. But for it, the screen is the one before, scrolled once for each
time that the text ran off the last row. -/
structure ShowsScrolled (s s' : Screen) (t : Text) (p : ColourPair) : Prop where
  room : t.length ≤ s'.here
  text : ∀ j (h : j < t.length), s'.picture[s'.here - t.length + j]? = some (t[j], p)
  others : ∀ k, k < s'.here - t.length ∨ s'.here ≤ k →
    s'.picture[k]? = (scroll^[s.overruns t] s).picture[k]?
  cursor : s'.here = s.here + t.length - 80 * s.overruns t

/-- What a text leaves on the screen: a cell shows the last character that came to lie in it, and the cursor
is where the next one goes. -/
structure PrintedOver (s s' : Screen) (t : Text) (p : ColourPair) : Prop where
  cells : ∀ i < 2000, s'.picture[i]? = some (s.unrolled t p (latest (s.here + t.length) i))
  cursor : s'.here = landing (s.here + t.length)

/-- Text that is printed over the last row looks as if the screen had scrolled: above the last row all is as it
is further down by as many rows as the text ran off, and the row that it ran off last is blank from the cursor
on. -/
structure LooksScrolled (s : Screen) (t : Text) (p : ColourPair) : Prop where
  above : ∀ k < 1920, s.unrolled t p (k + 80 * s.overruns t) = s.unrolled t p k
  behind : ∀ k, landing (s.here + t.length) ≤ k → k < 2000 →
    s.unrolled t p (k + 80 * (s.overruns t - 1)) = (' ', s.colour)

namespace Consistent

variable {s s' : Screen} (h : s.Consistent) {t : Text} {p : ColourPair}
include h

/-- A text of at most 24 rows is shown scrolled if every cell shows what is further down on endless rows. -/
theorem showsScrolled_iff (hs' : s'.Consistent) (hlength : t.length ≤ 1920)
    (hcursor : s'.here = s.here + t.length - 80 * s.overruns t) :
    s.ShowsScrolled s' t p ↔
      ∀ k < 2000, s'.picture[k]? = some (s.unrolled t p (k + 80 * s.overruns t)) := by
  have hrange : 80 * s.overruns t ≤ s.here := by
    have hhere := h.here_lt
    unfold overruns
    omega
  constructor
  · intro hshows k hk
    by_cases hout : k < s'.here - t.length ∨ s'.here ≤ k
    · rw [hshows.others k hout, h.getElem?_picture_iterate _ hk, unrolled_outside s p (by omega)]
    · have htext := hshows.text (k - (s'.here - t.length)) (by omega)
      have hplace := unrolled_text s p (t := t) (j := k - (s'.here - t.length)) (by omega)
      rw [← hplace] at htext
      convert htext using 3 <;> omega
  · intro hcells
    constructor
    case room => omega
    case text =>
      intro j hj
      have hhere := hs'.here_lt
      rw [hcells _ (by omega), ← unrolled_text s p hj]
      congr 2
      omega
    case others =>
      intro k hk
      by_cases hin : k < 2000
      · rw [hcells k hin, h.getElem?_picture_iterate _ hin, unrolled_outside s p (by omega)]
      · rw [getElem?_picture, getElem?_picture, hs'.size, (h.iterate_scroll _).1.size]
        unfold columns rows
        rw [if_neg (by omega), if_neg (by omega)]
    case cursor => exact hcursor

theorem printedOver (ht : '\n' ∉ t) : s.PrintedOver (s.print t p) t p :=
  ⟨fun _ hi => h.getElem?_picture_print ht p hi, h.here_print ht p⟩

/-- Behind the cursor a screen that scrolls is blank in its last row. -/
theorem unrolled_behind (hover : 2000 ≤ s.here + t.length) {k : Nat} (hk : landing (s.here + t.length) ≤ k) :
    s.unrolled t p (k + 80 * s.overruns t) = (' ', s.colour) := by
  have hbehind : s.here + t.length ≤ k + 80 * s.overruns t := by
    unfold landing at hk
    unfold overruns
    split_ifs at hk <;> omega
  rw [unrolled_outside s p (.inr hbehind), extended_of_le]
  rw [h.size]
  unfold columns rows
  omega

theorem looksScrolled_iff (hover : 2000 ≤ s.here + t.length) :
    s.LooksScrolled t p ↔ ∀ k < 2000,
      s.unrolled t p (latest (s.here + t.length) k) = s.unrolled t p (k + 80 * s.overruns t) := by
  have hlast {k : Nat} := @latest_lastRow (s.here + t.length) k hover
  constructor
  · intro hlooks k hk
    by_cases habove : k < 1920
    · rw [latest, if_pos habove, hlooks.above k habove]
    · rw [hlast (by omega) hk]
      split
      · next hbehind => exact (hlooks.behind k hbehind hk).trans (h.unrolled_behind hover hbehind).symm
      · rfl
  · intro hsame
    constructor
    case above =>
      intro k hk
      rw [← hsame k (by omega), latest, if_pos hk]
    case behind =>
      intro k hbehind hk
      have hrow : 1920 ≤ k := by
        unfold landing at hbehind
        split_ifs at hbehind <;> omega
      have hcell := hsame k hk
      rw [hlast hrow hk, if_pos hbehind] at hcell
      exact hcell.trans (h.unrolled_behind hover hbehind)

/-- A text that runs off the last row is shown as it should be only if that makes no difference. -/
theorem showsScrolled_print_iff (ht : '\n' ∉ t) (hlength : t.length ≤ 1920) :
    s.ShowsScrolled (s.print t p) t p ↔ s.here + t.length < 2000 ∨ s.LooksScrolled t p := by
  have hcursor : (s.print t p).here = s.here + t.length - 80 * s.overruns t := by
    rw [h.here_print ht p]
    unfold landing overruns
    split_ifs <;> omega
  have hshows : s.ShowsScrolled (s.print t p) t p ↔ ∀ k < 2000,
      s.unrolled t p (latest (s.here + t.length) k) = s.unrolled t p (k + 80 * s.overruns t) := by
    rw [h.showsScrolled_iff (h.print t p) hlength hcursor]
    refine forall₂_congr fun k hk => ?_
    rw [h.getElem?_picture_print ht p hk, Option.some.injEq]
  by_cases hfits : s.here + t.length < 2000
  · have hnever : s.overruns t = 0 := by
      unfold overruns
      omega
    refine iff_of_true (hshows.mpr fun k _ => ?_) (.inl hfits)
    rw [latest_of_lt hfits, hnever, Nat.mul_zero, Nat.add_zero]
  · rw [hshows, or_iff_right hfits, h.looksScrolled_iff (by omega)]

end Consistent

/-- After any operations, a text of at most 24 rows without line breaks is printed over the last row when it
runs off it. It is shown as on a screen that scrolls just when it ends in front of the last cell, or when
printing over the last row looks the same. -/
theorem print_scrolls_iff (ops : List Operation) (t : Text) (p : ColourPair) (hbreak : '\n' ∉ t)
    (hlength : t.length ≤ 1920) :
    (Operation.afterAll {} ops).PrintedOver ((Operation.afterAll {} ops).print t p) t p ∧
      ((Operation.afterAll {} ops).ShowsScrolled ((Operation.afterAll {} ops).print t p) t p ↔
        (Operation.afterAll {} ops).here + t.length < 2000 ∨
          (Operation.afterAll {} ops).LooksScrolled t p) := by
  have hscreen := consistent_initial.afterAll ops
  exact ⟨hscreen.printedOver hbreak, hscreen.showsScrolled_print_iff hbreak hlength⟩

def atCorner : Screen := Operation.afterAll {} [.move ⟨79, 24⟩]

private theorem picture_atCorner : atCorner.picture = List.replicate 2000 (' ', plainColour) := by
  decide +kernel

/-- Blanks may run off the last row of a blank screen. -/
theorem print_scrolls_blanks :
    '\n' ∉ [' ', ' '] ∧ [' ', ' '].length ≤ 1920 ∧ atCorner.here + [' ', ' '].length = 2001 ∧
      atCorner.ShowsScrolled (atCorner.print [' ', ' '] plainColour) [' ', ' '] plainColour := by
  have hbreak : '\n' ∉ [' ', ' '] := by decide
  have hlength : [' ', ' '].length ≤ 1920 := by decide
  have hpaper (n : Nat) : atCorner.extended n = (' ', plainColour) := by
    have hcolour : atCorner.colour = plainColour := by decide +kernel
    rw [extended, picture_atCorner, hcolour, List.getD_eq_getElem?_getD, List.getElem?_replicate]
    split <;> rfl
  have hblank (n : Nat) : atCorner.unrolled [' ', ' '] plainColour n = (' ', plainColour) := by
    have hmap : [' ', ' '].map (·, plainColour) = List.replicate 2 (' ', plainColour) := rfl
    rw [unrolled, hpaper, hmap, List.getD_eq_getElem?_getD, List.getElem?_replicate]
    split_ifs <;> rfl
  refine ⟨hbreak, hlength, by decide +kernel, ?_⟩
  apply (print_scrolls_iff [.move ⟨79, 24⟩] [' ', ' '] plainColour hbreak hlength).2.mpr
  right
  constructor
  case above =>
    intro k _
    exact (hblank _).trans (hblank _).symm
  case behind =>
    intro k _ _
    exact hblank _

/-- Of two letters that are printed from the last cell on, the first stays there. -/
theorem letters_not_scrolled :
    ¬atCorner.ShowsScrolled (atCorner.print ['A', 'B'] plainColour) ['A', 'B'] plainColour := by
  intro hshows
  have hfirst := hshows.text 0 (by decide)
  revert hfirst
  decide +kernel

end Screen
end BasicMachine
