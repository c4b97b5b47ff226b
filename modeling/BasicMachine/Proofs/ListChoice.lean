import BasicMachine.Proofs.DialogDrawing
import BasicMachine.Proofs.OutsideVariables

/-! The choice from a list. The selection goes down to the last of the 14 lines however short the list is, so
a list of 14 items or more always gives one of them, while a shorter one can be left with a number behind its
end. No line has the colour of the selection then, and the number is of no file. -/
namespace BasicMachine

open Screen (Operation)
open Machine (stringName)

namespace Machine

variable {m : Machine} {k : Int} {rest : List Int} (hopen : m.screen.closed = false)
include hopen

theorem run_waitKey_zero (hkeys : m.keys = 0 :: rest) :
    waitKey.run m = waitKey.run { m with keys := rest } := by
  simp [waitKey, waitKeyIn, Run.run_bind, hkeys, hopen]

theorem run_waitKey_cons (hkeys : m.keys = k :: rest) (hk : k ≠ 0) :
    waitKey.run m = (.ok k, { m with keys := rest }) := by
  simp [waitKey, waitKeyIn, Run.run_bind, hkeys, hopen, hk]

end Machine

namespace Dialog.Listbox

/-- The dialog after a key: one moves the selection up, two moves it down. -/
def press (b : Listbox) (k : Int) : Listbox := if k = 1 then b.up else if k = 2 then b.down else b

def pressAll (b : Listbox) (keys : List Int) : Listbox := keys.foldl press b

/-- The window is open and the screen in order, as some operations have made it out of `s`. -/
structure Ready (s : Screen) (m : Machine) : Prop where
  consistent : m.screen.Consistent
  opened : m.screen.closed = false
  since : ∃ ops, m.screen = Operation.afterAll s ops

/-- The last thing drawn is the dialog as it is now. -/
def OnView (b : Listbox) (c : Colours) (s : Screen) (m : Machine) : Prop :=
  ∃ ops, m.screen = Operation.afterAll s (ops ++ view c b.items b.offset b.choice)

theorem run_draw (b : Listbox) (c : Colours) {s : Screen} {m : Machine} (hm : Ready s m) :
    ∃ n, (b.draw c).run m = (.ok (), n) ∧ n.keys = m.keys ∧ Ready s n ∧ b.OnView c s n := by
  obtain ⟨ops, hdraws⟩ := b.draws_draw c
  obtain ⟨n, hrun, hscreen, hkeys⟩ := hdraws m hm.consistent
  obtain ⟨earlier, hsince⟩ := hm.since
  have hall : n.screen = Operation.afterAll s (earlier ++ ops ++ view c b.items b.offset b.choice) := by
    rw [hscreen, hsince, List.append_assoc, ← Screen.afterAll_append]
  refine ⟨n, hrun, hkeys, ⟨?_, ?_, _, hall⟩, _, hall⟩
  · rw [hscreen]
    exact hm.consistent.afterAll _
  · rw [hscreen, Screen.closed_afterAll]
    exact hm.opened

/-- A key that does not end the dialog changes it and has it drawn again, or is passed over. -/
theorem run_follow_key (c : Colours) {b : Listbox} {s : Screen} {m : Machine} {k : Int} {rest : List Int}
    (hm : Ready s m) (hview : b.OnView c s m) (hkeys : m.keys = k :: rest) (henter : k ≠ enterKey)
    (hescape : k ≠ escapeKey) (n : Nat) :
    ∃ m' n', (follow c b (n + 1)).run m = (follow c (b.press k) n').run m' ∧ n ≤ n' ∧
      Ready s m' ∧ (b.press k).OnView c s m' ∧ m'.keys = rest := by
  have htaken : Ready s { m with keys := rest } := ⟨hm.consistent, hm.opened, hm.since⟩
  by_cases hzero : k = 0
  -- The wait itself passes over a zero, so no round is used up.
  · subst hzero
    refine ⟨{ m with keys := rest }, n + 1, ?_, Nat.le_succ n, htaken, hview, rfl⟩
    have hwait : (Display.waitKey : Action Int).run m = Display.waitKey.run { m with keys := rest } :=
      Machine.run_waitKey_zero hm.opened hkeys
    change (follow c b (n + 1)).run m = (follow c b (n + 1)).run { m with keys := rest }
    rw [follow, Run.run_bind, Run.run_bind, hwait]
  have hwait : (Display.waitKey : Action Int).run m = (.ok k, { m with keys := rest }) :=
    Machine.run_waitKey_cons hm.opened hkeys hzero
  rw [follow, Run.run_bind_ok hwait, if_neg henter, if_neg hescape]
  unfold press
  split
  · obtain ⟨m', hdraw, hkeys', hm', hview'⟩ := b.up.run_draw c htaken
    exact ⟨m', n, Run.run_bind_ok hdraw, Nat.le_refl n, hm', hview', hkeys'⟩
  split
  · obtain ⟨m', hdraw, hkeys', hm', hview'⟩ := b.down.run_draw c htaken
    exact ⟨m', n, Run.run_bind_ok hdraw, Nat.le_refl n, hm', hview', hkeys'⟩
  · exact ⟨_, n, rfl, Nat.le_refl n, htaken, hview, rfl⟩

/-- The keys up to the first enter or escape. -/
structure Ends (before : List Int) (last : Int) : Prop where
  before : ∀ k ∈ before, k ≠ enterKey ∧ k ≠ escapeKey
  last : last = enterKey ∨ last = escapeKey

/-- The keys are followed one by one to the last. -/
theorem run_follow {before rest : List Int} {last : Int} (h : Ends before last) (c : Colours) {b : Listbox}
    {s : Screen} {m : Machine} {n : Nat} (hm : Ready s m) (hview : b.OnView c s m)
    (hkeys : m.keys = before ++ last :: rest) (hn : before.length < n) :
    ∃ m', (follow c b n).run m =
        (.ok (if last = escapeKey then 0 else (b.pressAll before).choice), m') ∧
      (b.pressAll before).OnView c s m' := by
  obtain ⟨hbefore, hlast⟩ := h
  obtain ⟨n, rfl⟩ : ∃ n', n = n' + 1 := ⟨n - 1, by omega⟩
  -- The rounds left stay more than the keys before the last one.
  induction before generalizing b m n with
  | nil =>
    have hwait : (Display.waitKey : Action Int).run m = (.ok last, { m with keys := rest }) :=
      Machine.run_waitKey_cons hm.opened hkeys (by rcases hlast with rfl | rfl <;> decide)
    refine ⟨{ m with keys := rest }, ?_, hview⟩
    rw [follow, Run.run_bind_ok hwait]
    rcases hlast with rfl | rfl <;> rfl
  | cons k before ih =>
    obtain ⟨⟨henter, hescape⟩, hrest⟩ := List.forall_mem_cons.mp hbefore
    obtain ⟨m', n', hrun, hle, hm', hview', hkeys'⟩ :=
      run_follow_key c hm hview hkeys henter hescape n
    have hlength : before.length < n := by simpa using hn
    obtain ⟨n', rfl⟩ : ∃ n'', n' = n'' + 1 := ⟨n' - 1, by omega⟩
    rw [hrun]
    exact ih hm' hview' hkeys' hrest n' (by omega)

def position (b : Listbox) : Nat := b.offset + b.selected

theorem choice_eq (b : Listbox) : b.choice = b.position + 1 := by
  unfold choice position
  omega

/-- The selection is on a line of the view, and the view does not go further down than it has to. -/
structure Aligned (b : Listbox) : Prop where
  selected : b.selected < lines
  offset : b.offset + lines ≤ max b.items.length lines

/-- The index that a key moves the selection to in a list of `n` items: the last item, or the last line of
the view if that is further down, is as far as it goes. -/
def moved (n p : Nat) (k : Int) : Nat :=
  if k = 1 then p - 1 else if k = 2 then min (p + 1) (max n lines - 1) else p

def selectedAfter (n : Nat) (keys : List Int) : Nat := keys.foldl (moved n) 0

namespace Aligned

variable {b : Listbox} (h : b.Aligned)
include h

theorem up : b.up.Aligned ∧ b.up.position = b.position - 1 := by
  obtain ⟨hselected, hoffset⟩ := h
  unfold Listbox.up position
  split
  · next hfirst => exact ⟨⟨hselected, Nat.le_trans (by dsimp only; omega) hoffset⟩, by dsimp only; omega⟩
  · exact ⟨⟨by dsimp only; omega, hoffset⟩, by dsimp only; omega⟩

theorem down : b.down.Aligned ∧ b.down.position = min (b.position + 1) (max b.items.length lines - 1) := by
  obtain ⟨hselected, hoffset⟩ := h
  unfold Listbox.down position
  split
  · next hlast =>
    split
    · next hmore => exact ⟨⟨hselected, by dsimp only; omega⟩, by dsimp only; omega⟩
    · next hmore => exact ⟨⟨hselected, hoffset⟩, by omega⟩
  · next hlast => exact ⟨⟨by dsimp only; omega, hoffset⟩, by dsimp only; omega⟩

theorem press (k : Int) : (b.press k).Aligned ∧ (b.press k).items = b.items ∧
    (b.press k).position = moved b.items.length b.position k := by
  have hup : b.up.items = b.items := by
    unfold Listbox.up
    split <;> rfl
  have hdown : b.down.items = b.items := by
    unfold Listbox.down
    split
    · split <;> rfl
    · rfl
  unfold Listbox.press moved
  split
  · exact ⟨h.up.1, hup, h.up.2⟩
  split
  · exact ⟨h.down.1, hdown, h.down.2⟩
  · exact ⟨h, rfl, rfl⟩

theorem pressAll (keys : List Int) : (b.pressAll keys).Aligned ∧ (b.pressAll keys).items = b.items ∧
    (b.pressAll keys).position = keys.foldl (moved b.items.length) b.position := by
  induction keys generalizing b with
  | nil => exact ⟨h, rfl, rfl⟩
  | cons k keys ih =>
    obtain ⟨haligned, hitems, hposition⟩ := h.press k
    have hrest := ih haligned
    rw [hitems, hposition] at hrest
    exact hrest

end Aligned

theorem selectedAfter_lt (n : Nat) (keys : List Int) : selectedAfter n keys < max n lines := by
  have hbound : ∀ p < max n lines, keys.foldl (moved n) p < max n lines := by
    induction keys with
    | nil => exact fun p hp => hp
    | cons k keys ih =>
      intro p hp
      apply ih
      unfold moved
      split
      · omega
      split <;> omega
  exact hbound 0 (by unfold lines; omega)

end Dialog.Listbox

theorem Call.result_putString {m : Machine} (hm : 17664 ≤ m.memory.size) {ts : List Token} {k : Int}
    {i : Fin 8} (hname : Arguments.Has ts k (.stringVar (stringName i))) (t : Text) :
    ((Call.putString t).run ⟨m, ⟨ts, k⟩⟩).1 = .ok () := by
  have hread : Call.nextStringVar.run ⟨m, ⟨ts, k⟩⟩ = (.ok (stringName i), ⟨m, ⟨ts, k + 1⟩⟩) :=
    Call.run_nextAs _ hname
  rw [Call.putString, Run.run_bind_ok hread, Call.run_liftM, Machine.run_setString hm i t]

theorem Command.run_askFile {m m' : Machine} {n : Nat} (hchoose : (Dialog.choose m.disk.shortNames
    Dialog.filePrompt1 Dialog.filePrompt2 : Action Nat).run m = (.ok n, m')) (args : Arguments) :
    Command.runAskFile.run ⟨m, args⟩ = (if n = 0 then Call.putString []
      else do Call.putString (← Run.ofExcept (Machine.itemAt m.disk.shortNames n))).run ⟨m', args⟩ := by
  have hdialog : (Call.onMachine (Dialog.choose m.disk.shortNames Dialog.filePrompt1 Dialog.filePrompt2)).run
      ⟨m, args⟩ = (.ok n, ⟨m', args⟩) := by
    simp [Call.onMachine, hchoose]
  exact Run.run_bind_ok hdialog

namespace Dialog

open Listbox

/-- A list dialog can be shown on the machine, and the keys behind it are those, up to an enter or an escape
that ends it. -/
structure Opens (m : Machine) (c : Colours) (before : List Int) (last : Int) : Prop where
  consistent : m.screen.Consistent
  opened : m.screen.closed = false
  list : m.colour "dialog_inner".toList = .ok c.list
  selection : m.colour "dialog_select".toList = .ok c.selection
  box : m.colour "dialog_outer".toList = .ok c.box
  ends : Ends before last
  keys : ∃ rest, m.keys = before ++ last :: rest

/-- The number is that of an item, and the last thing drawn is a part of the list with this item in it, and
with this item in the colour of the selection. -/
structure RealChoice (c : Colours) (items : List Text) (s t : Screen) (k : Nat) : Prop where
  inList : 1 ≤ k ∧ k ≤ items.length
  drawn : ∃ ops offset, t = Operation.afterAll s (ops ++ view c items offset k) ∧
    offset < k ∧ k ≤ offset + lines

theorem run_colour {m : Machine} {name : Text} {p : ColourPair} (h : m.colour name = .ok p) :
    (Display.colour name : Action ColourPair).run m = (.ok p, m) := by
  rw [← h]
  rfl

namespace Opens

variable {m : Machine} {c : Colours} {before : List Int} {last : Int} (h : Opens m c before last)
include h

/-- The dialog returns the number of the selected item, or zero for escape, with that number on view. -/
theorem run_choose (items : List Text) (prompt1 prompt2 : Text) :
    ∃ m' offset ops, (choose items prompt1 prompt2 : Action Nat).run m =
        (.ok (if last = escapeKey then 0 else selectedAfter items.length before + 1), m') ∧
      m'.screen = Operation.afterAll m.screen
        (ops ++ view c items offset (selectedAfter items.length before + 1)) ∧
      offset ≤ selectedAfter items.length before ∧ selectedAfter items.length before < offset + lines := by
  let b : Listbox := { items, prompt1, prompt2 }
  obtain ⟨rest, hkeys⟩ := h.keys
  have hhidden : Ready m.screen { m with screen := { m.screen with cursorVisible := false } } :=
    ⟨h.consistent.after (.showCursor false), h.opened, [.showCursor false], rfl⟩
  obtain ⟨n, hdraw, hkeys', hready, hview⟩ := b.run_draw c hhidden
  have hqueue : n.keys = before ++ last :: rest := hkeys'.trans hkeys
  have henough : before.length < n.keys.length := by
    rw [hqueue, List.length_append, List.length_cons]
    omega
  obtain ⟨m', hfollow, ops, hscreen⟩ := run_follow h.ends c hready hview hqueue henough
  have hstart : b.Aligned := ⟨show 0 < lines by decide, Nat.le_max_right ..⟩
  obtain ⟨haligned, hitems, hposition⟩ := hstart.pressAll before
  have hselected : (b.pressAll before).position = selectedAfter items.length before := hposition
  rw [choice_eq, hselected] at hfollow hscreen
  rw [hitems] at hscreen
  have hline := haligned.selected
  refine ⟨m', (b.pressAll before).offset, ops, ?_, hscreen, ?_, ?_⟩
  · have hlist : (innerColour : Action ColourPair).run m = (.ok c.list, m) := run_colour h.list
    have hselection : (selectColour : Action ColourPair).run m = (.ok c.selection, m) :=
      run_colour h.selection
    have hbox : (outerColour : Action ColourPair).run m = (.ok c.box, m) := run_colour h.box
    have hhide : (Display.hideCursor : Action Unit).run m =
        (.ok (), { m with screen := { m.screen with cursorVisible := false } }) := rfl
    have hready : (Display.keysReady : Action Nat).run n = (.ok n.keys.length, n) := rfl
    rw [choose, Run.run_bind_ok hlist, Run.run_bind_ok hselection, Run.run_bind_ok hbox,
      Run.run_bind_ok hhide, Run.run_bind_ok hdraw, Run.run_bind_ok hready]
    exact hfollow
  · rw [← hselected]
    exact Nat.le_add_right ..
  · rw [← hselected]
    exact Nat.add_lt_add_left hline _

/-- `ASKFILE` stores the name of the chosen file, or fails if there is no file with that number. -/
theorem result_askFile {w : Text} (hw : upper w = "ASKFILE".toList) (i : Fin 8) (more : List Token)
    (hsize : 65536 ≤ m.memory.size) :
    ((Machine.runTokens (.word w :: .stringVar (stringName i) :: more)).run m).1 =
      if last = escapeKey ∨ selectedAfter m.disk.shortNames.length before < m.disk.shortNames.length then
        .ok () else .error .noSuchItem := by
  obtain ⟨m', -, -, hchoose, -⟩ := h.run_choose m.disk.shortNames filePrompt1 filePrompt2
  have hm' : 17664 ≤ m'.memory.size := by
    have hkept := keeps_choose Frame.aside_outside.still.shown m.disk.shortNames filePrompt1 filePrompt2
      m hsize
    rw [hchoose] at hkept
    exact Nat.le_trans (by omega) (Nat.le_of_eq hkept.1.symm)
  have hroutine := Command.run_dispatch_word Debugger.hooks m w (.stringVar (stringName i) :: more)
  rw [hw] at hroutine
  have hrun := congrArg Prod.fst (Command.run_withArguments (hroutine.trans (Command.run_askFile hchoose _)))
  have hname : Arguments.Has (.word w :: .stringVar (stringName i) :: more) 1 (.stringVar (stringName i)) :=
    ⟨by decide, by decide, rfl⟩
  refine hrun.trans ?_
  by_cases hescape : last = escapeKey
  · rw [if_pos (if_pos hescape), if_pos (.inl hescape)]
    exact Call.result_putString hm' hname []
  rw [if_neg hescape, if_neg (Nat.succ_ne_zero _)]
  by_cases hinside : selectedAfter m.disk.shortNames.length before < m.disk.shortNames.length
  · have hfile : Machine.itemAt m.disk.shortNames (selectedAfter m.disk.shortNames.length before + 1) =
        .ok (m.disk.shortNames.get ⟨_, hinside⟩) := by
      simp [Machine.itemAt, List.getElem?_eq_getElem hinside]
    rw [if_pos (.inr hinside), hfile]
    exact Call.result_putString hm' hname _
  · have hnone : Machine.itemAt m.disk.shortNames (selectedAfter m.disk.shortNames.length before + 1) =
        .error .noSuchItem := by
      simp [Machine.itemAt, List.getElem?_eq_none (Nat.le_of_not_lt hinside)]
    rw [if_neg (not_or.mpr ⟨hescape, hinside⟩), hnone]
    rfl

end Opens

/-- The choice is a real one exactly if the keys do not leave the selection behind the end of the list. -/
theorem choice_real_iff {m : Machine} {c : Colours} {before : List Int} {last : Int}
    (h : Opens m c before last) (items : List Text) (prompt1 prompt2 : Text) :
    ∃ n m', (choose items prompt1 prompt2 : Action Nat).run m = (.ok n, m') ∧
      (last = escapeKey → n = 0) ∧
      (last = enterKey → n = selectedAfter items.length before + 1 ∧
        (RealChoice c items m.screen m'.screen n ↔ selectedAfter items.length before < items.length)) ∧
      (lines ≤ items.length → selectedAfter items.length before < items.length) ∧
      ∀ w i more, upper w = "ASKFILE".toList → 65536 ≤ m.memory.size → m.disk.shortNames = items →
        ((Machine.runTokens (.word w :: .stringVar (stringName i) :: more)).run m).1 =
          if last = escapeKey ∨ selectedAfter items.length before < items.length then .ok ()
          else .error .noSuchItem := by
  obtain ⟨m', offset, ops, hrun, hscreen, hfirst, hlast⟩ := h.run_choose items prompt1 prompt2
  refine ⟨_, m', hrun, fun hescape => if_pos hescape, fun henter => ?_, fun hlong => ?_, ?_⟩
  · have hnumber : last ≠ escapeKey := by
      rw [henter]
      decide
    rw [if_neg hnumber]
    refine ⟨rfl, fun hreal => hreal.inList.2, fun hinside => ⟨⟨by omega, hinside⟩, ?_⟩⟩
    exact ⟨ops, offset, hscreen, by omega, by omega⟩
  · have hbound := selectedAfter_lt items.length before
    omega
  · rintro w i more hw hsize rfl
    exact h.result_askFile hw i more hsize

def startColours : Colours :=
  ⟨⟨.black, .white⟩, ⟨.white, .black⟩, ⟨.white, .red⟩⟩

theorem opens_start {keys before : List Int} {last : Int} (h : Ends before last)
    (hkeys : keys = before ++ [last]) : Opens { keys } startColours before last where
  consistent := Screen.consistent_initial
  opened := rfl
  list := rfl
  selection := rfl
  box := rfl
  ends := h
  keys := ⟨[], hkeys⟩

/-- In a list of two items a key that means nothing, twice down, up and enter choose the last one. -/
theorem choice_real_second :
    Opens { keys := [0, 65, 2, 2, 1, 13] } startColours [0, 65, 2, 2, 1] 13 ∧
      ∃ n m', (choose [['A'], ['B']] [] [] : Action Nat).run { keys := [0, 65, 2, 2, 1, 13] } = (.ok n, m') ∧
        n = 2 ∧ RealChoice startColours [['A'], ['B']] {} m'.screen n := by
  have hends : Ends [0, 65, 2, 2, 1] 13 := ⟨by decide, .inl rfl⟩
  have hopens : Opens { keys := [0, 65, 2, 2, 1, 13] } startColours [0, 65, 2, 2, 1] 13 :=
    opens_start hends rfl
  obtain ⟨n, m', hrun, -, henter, -⟩ := choice_real_iff hopens [['A'], ['B']] [] []
  obtain ⟨hn, hreal⟩ := henter rfl
  have hlast : selectedAfter [['A'], ['B']].length [0, 65, 2, 2, 1] = 1 := by decide
  rw [hlast] at hn hreal
  exact ⟨hopens, n, m', hrun, hn, hreal.mpr (by decide)⟩

/-- In a list of one item the key down and enter choose a second one. -/
theorem choose_behind_end :
    ∃ m', (choose [['A']] ['P'] ['Q'] : Action Nat).run { keys := [2, 13] } = (.ok 2, m') ∧
      ¬2 ≤ [['A']].length := by
  have hends : Ends [2] 13 := ⟨by decide, .inl rfl⟩
  have hopens : Opens { keys := [2, 13] } startColours [2] 13 := opens_start hends rfl
  obtain ⟨m', -, -, hrun, -⟩ := hopens.run_choose [['A']] ['P'] ['Q']
  have hchoice : (if (13 : Int) = escapeKey then 0 else selectedAfter [['A']].length [2] + 1) = 2 := by
    decide
  rw [hchoice] at hrun
  exact ⟨m', hrun, by decide⟩

end Dialog
end BasicMachine
