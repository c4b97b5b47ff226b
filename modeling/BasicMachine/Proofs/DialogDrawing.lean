import BasicMachine.Proofs.ScreenOperations
import BasicMachine.Proofs.StraightLine

/-! What a list dialog draws. Each drawing is a row of operations on the screen, which return as the dialog
lies inside it, take no keys and leave the window open. The last of them show the items on view, line by line,
and the line of the choice has the colour of the selection. -/
namespace BasicMachine

namespace Screen

theorem closed_after (s : Screen) (op : Operation) : (Operation.after s op).closed = s.closed := by
  have hmark (on : Bool) : (s.drawMark on).closed = s.closed := (Drawn.drawMark s on).closed
  cases op with
  | print t p => exact (Drawn.print s t p).closed
  | newline => exact (Drawn.newline s).closed
  | advance => exact hmark false
  | move p => exact hmark false
  | drawMark on => exact hmark on
  | drawCursor clock => exact hmark _
  | update clock => exact hmark _
  | fill a c p => exact (Drawn.fillRows s c p _ _ _).closed
  | clear => exact (Drawn.clear s).closed
  | scroll | showCursor | setColour => rfl

theorem closed_afterAll (s : Screen) (ops : List Operation) :
    (Operation.afterAll s ops).closed = s.closed := by
  induction ops generalizing s with
  | nil => rfl
  | cons op ops ih => exact (ih _).trans (s.closed_after op)

theorem afterAll_append (s : Screen) (ops ops' : List Operation) :
    Operation.afterAll s (ops ++ ops') = Operation.afterAll (Operation.afterAll s ops) ops' :=
  List.foldl_append

end Screen

open Screen (Operation)

/-- The step returns, and does to the screen what the operations do one after another. It takes no keys. -/
def Draws (x : Action Unit) (ops : List Operation) : Prop :=
  ∀ m : Machine, m.screen.Consistent → ∃ n, x.run m = (.ok (), n) ∧
    n.screen = Operation.afterAll m.screen ops ∧ n.keys = m.keys

namespace Draws

protected theorem pure : Draws (pure ()) [] := fun m _ => ⟨m, rfl, rfl, rfl⟩

protected theorem bind {x : Action Unit} {f : Unit → Action Unit} {ops ops' : List Operation}
    (hx : Draws x ops) (hf : ∀ u, Draws (f u) ops') : Draws (x >>= f) (ops ++ ops') := by
  intro m hm
  obtain ⟨n, hrun, hscreen, hkeys⟩ := hx m hm
  have hn : n.screen.Consistent := by
    rw [hscreen]
    exact hm.afterAll ops
  obtain ⟨n', hrun', hscreen', hkeys'⟩ := hf () n hn
  refine ⟨n', (Run.run_bind_ok hrun).trans hrun', ?_, hkeys'.trans hkeys⟩
  rw [hscreen', hscreen, Screen.afterAll_append]

theorem moveCursor (p : Position) : Draws (Display.moveCursor p) [.move p] :=
  fun _ _ => ⟨_, rfl, rfl, rfl⟩

theorem fillArea {a : Area} {c : ColourPair} (hinside : (Operation.fill a ' ' c).Inside) :
    Draws (Display.fillArea a c) [.fill a ' ' c] := by
  intro m hm
  refine ⟨{ m with screen := Operation.after m.screen (.fill a ' ' c) }, ?_, rfl, rfl⟩
  have hfill : (Screen.fill a ' ' c).run m.screen = (.ok (), Operation.after m.screen (.fill a ' ' c)) :=
    hm.run_perform hinside
  change (Machine.onScreen (Screen.fill a ' ' c)).run m = _
  rw [Machine.onScreen, Run.run_onPart, hfill]

theorem of_console {x : Action Unit} (h : ∀ m, ∃ console, x.run m = (.ok (), { m with console })) :
    Draws x [] := by
  intro m _
  obtain ⟨console, hrun⟩ := h m
  exact ⟨_, hrun, rfl, rfl⟩

theorem logPrint (t : Text) : Draws (Machine.logPrint t) [] := by
  have hlog : Draws (do
      Machine.debug "PRINT".toList t
      Machine.changeDebugger fun d => { d with lastPrint := t }) [] :=
    (of_console (Machine.run_report _ _ _)).bind fun _ _ _ => ⟨_, rfl, rfl, rfl⟩
  intro m hm
  cases hshow : m.debugger.showPrints with
  | false =>
    obtain ⟨n, hrun, hn⟩ := hlog m hm
    refine ⟨n, ?_, hn⟩
    rw [← hrun, Machine.logPrint, Run.run_bind, Run.run_get]
    dsimp only
    rw [hshow, if_neg (by decide)]
  | true =>
    have htype : Draws (Machine.typeLine ("PRINT: \"".toList ++ t ++ ['"'])) [] :=
      of_console fun m => ⟨_, rfl⟩
    obtain ⟨n, hrun, hn⟩ := htype.bind (fun _ => hlog) m hm
    refine ⟨n, ?_, hn⟩
    rw [← hrun, Machine.logPrint, Run.run_bind, Run.run_get]
    dsimp only
    rw [hshow, if_pos rfl]

theorem printIn (c : ColourPair) (t : Text) : Draws (Display.printIn c t) [.print t c] :=
  (logPrint t).bind fun _ _ _ => ⟨_, rfl, rfl, rfl⟩

end Draws

namespace Dialog.Listbox

def linePlace (j : Nat) : Position := ((listArea.start.down 1).right 1).down j

/-- The items from the index `offset` on, one more than the selection has lines to move over. The one with
the number `k` has the colour of the selection, and all others have that of the list. -/
def view (c : Colours) (items : List Text) (offset k : Nat) : List Operation :=
  (((items.drop offset).take (lines + 1)).zipIdx offset).flatMap fun p =>
    [.move (linePlace (p.2 - offset)),
      .print (Text.padRight 36 p.1) (if p.2 + 1 = k then c.selection else c.list)]

theorem draws_drawItems (b : Listbox) (c : Colours) (i : Nat) (items : List Text) :
    Draws (drawItems b c i items) ((items.zipIdx (b.offset + i)).flatMap fun p =>
      [.move (linePlace (p.2 - b.offset)),
        .print (Text.padRight 36 p.1) (if p.2 + 1 = b.choice then c.selection else c.list)]) := by
  induction items generalizing i with
  | nil => exact .pure
  | cons item rest ih =>
    have hline : b.offset + i - b.offset = i := by omega
    have hselected : b.offset + i + 1 = b.choice ↔ i = b.selected := by
      unfold choice
      omega
    rw [List.zipIdx_cons, List.flatMap_cons, hline]
    simp only [hselected]
    exact (Draws.moveCursor _).bind fun _ => (Draws.printIn _ _).bind fun _ => ih (i + 1)

/-- A drawing of the dialog ends with the items on view, and the choice has the colour of the selection. -/
theorem draws_draw (b : Listbox) (c : Colours) : ∃ ops,
    Draws (b.draw c) (ops ++ view c b.items b.offset b.choice) := by
  have hbox : (Operation.fill box ' ' c.box).Inside := by simp [Operation.Inside, box]
  have hlist : (Operation.fill listArea ' ' c.list).Inside := by simp [Operation.Inside, listArea]
  refine ⟨[.fill box ' ' c.box, .fill listArea ' ' c.list, .move ((box.start.down 1).right 1),
    .print b.prompt1 c.box, .move (((box.start.down 1).right 1).down 1), .print b.prompt2 c.box], ?_⟩
  exact (Draws.fillArea hbox).bind fun _ => (Draws.fillArea hlist).bind fun _ =>
    (Draws.moveCursor _).bind fun _ => (Draws.printIn _ _).bind fun _ => (Draws.moveCursor _).bind fun _ =>
    (Draws.printIn _ _).bind fun _ => draws_drawItems b c 0 b.visible

end Dialog.Listbox
end BasicMachine
