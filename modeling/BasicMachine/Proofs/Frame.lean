import BasicMachine.Interpreter
import BasicMachine.Proofs.ScreenOperations

/-! Frames: what a step may change, whether it succeeds or fails. Taking arguments changes nothing of the
machine, so it keeps every frame. Printing, waiting for keys and showing dialogs keep every frame that
allows changes beside the memory, the settings and the course of the program. -/
namespace BasicMachine

/-- What may become of a state. No change is allowed, and so is one allowed change after another. -/
structure Frame (σ : Type) where
  allows : σ → σ → Prop
  refl : ∀ s, allows s s
  trans : ∀ {s t u}, allows s t → allows t u → allows s u

namespace Run

variable {σ α β : Type} {F : Frame σ}

/-- The step changes only what the frame allows. -/
def Keeps (F : Frame σ) (x : Run σ α) : Prop := ∀ s, F.allows s (x.run s).2

/-- What follows a step need only keep the frame for the values that the step gives. -/
theorem allows_bind {x : Run σ α} {f : α → Run σ β} {s : σ} (hx : Keeps F x)
    (hf : ∀ a, (x.run s).1 = .ok a → Keeps F (f a)) : F.allows s ((x >>= f).run s).2 := by
  have hfirst := hx s
  rcases hrun : x.run s with ⟨r, s'⟩
  rw [hrun] at hfirst
  cases r with
  | error e => rwa [run_bind_error hrun]
  | ok a =>
    rw [run_bind_ok hrun]
    exact F.trans hfirst (hf a (by rw [hrun]) s')

namespace Keeps

protected theorem pure (a : α) : Keeps F (pure a) := F.refl

protected theorem throw (e : Fault) : Keeps F (throw e : Run σ α) := F.refl

protected theorem ofExcept (r : Except Fault α) : Keeps F (ofExcept r) := F.refl

protected theorem modify {f : σ → σ} (h : ∀ s, F.allows s (f s)) : Keeps F (modify f : Run σ PUnit) := h

protected theorem bind {x : Run σ α} {f : α → Run σ β} (hx : Keeps F x) (hf : ∀ a, Keeps F (f a)) :
    Keeps F (x >>= f) := fun _ => allows_bind hx fun a _ => hf a

protected theorem map {x : Run σ α} (f : α → β) (hx : Keeps F x) : Keeps F (f <$> x) := by
  rw [map_eq_pure_bind]
  exact hx.bind fun a => .pure (f a)

theorem get_bind {f : σ → Run σ α} (h : ∀ s, Keeps F (f s)) : Keeps F (get >>= f) := fun s => h s s

protected theorem ite {x y : Run σ α} (p : Prop) [Decidable p] (hx : Keeps F x) (hy : Keeps F y) :
    Keeps F (if p then x else y) := by
  split
  · exact hx
  · exact hy

protected theorem tryCatch {x : Run σ α} {h : Fault → Run σ α} (hx : Keeps F x)
    (hh : ∀ e, Keeps F (h e)) : Keeps F (tryCatch x h) := by
  intro s
  have hfirst := hx s
  rw [run_tryCatch]
  rcases hrun : x.run s with ⟨r, s'⟩
  rw [hrun] at hfirst
  cases r with
  | ok a => exact hfirst
  | error e => exact F.trans hfirst (hh e s')

protected theorem forM {ι : Type} {f : ι → Run σ Unit} (h : ∀ i, Keeps F (f i)) (items : List ι) :
    Keeps F (items.forM f) := by
  induction items with
  | nil => exact .pure ()
  | cons i rest ih => exact (h i).bind fun _ => ih

end Keeps
end Run

open Run (Keeps)

/-- The frame of a call: the arguments may be taken, and the machine keeps its own frame. -/
def Frame.call (F : Frame Machine) : Frame Call where
  allows c d := F.allows c.machine d.machine
  refl c := F.refl c.machine
  trans h h' := F.trans h h'

namespace Call

variable {F : Frame Machine} {α : Type}

theorem keeps_onMachine {x : Action α} (h : Keeps F x) : Keeps F.call (onMachine x) :=
  fun c => h c.machine

theorem keeps_changeIndex (n : Int) : Keeps F.call (changeIndex n) := fun c => F.refl c.machine

theorem keeps_hasAny : Keeps F.call hasAny := .get_bind fun _ => .pure _

theorem keeps_expectArguments (n : Int) : Keeps F.call (expectArguments n) :=
  .get_bind fun _ => .ite _ (.throw _) (.pure _)

theorem keeps_nextAs (read : Machine → Token → Except Fault α) : Keeps F.call (nextAs read) := by
  refine .bind ?_ fun _ => .get_bind fun _ => .ofExcept _
  refine .bind (.get_bind fun c => (Keeps.ofExcept _).bind fun t => ?_) fun _ =>
    (keeps_changeIndex 1).bind fun _ => .pure _
  cases t with
  | none => exact .throw _
  | some t => exact .pure t

theorem keeps_look : Keeps F.call look := .get_bind fun _ => .ofExcept _

theorem keeps_has (p : Token → Bool) : Keeps F.call (has p) := keeps_look.bind fun _ => .pure _

theorem keeps_hasSymbolIs (wanted : Text) : Keeps F.call (hasSymbolIs wanted) := by
  refine keeps_look.bind fun t => ?_
  cases t with
  | none => exact .pure _
  | some t => exact (Keeps.ofExcept _).bind fun _ => .pure _

theorem keeps_hasWordIs (wanted : Text) : Keeps F.call (hasWordIs wanted) := by
  refine keeps_look.bind fun t => ?_
  cases t with
  | none => exact .pure _
  | some t => exact (Keeps.ofExcept _).bind fun _ => .pure _

theorem keeps_nextSymbolIs (wanted : Text) : Keeps F.call (nextSymbolIs wanted) :=
  (keeps_nextAs _).bind fun _ => .ite _ (.pure _) (.throw _)

theorem keeps_nextSymbolOf (wanted : List Text) : Keeps F.call (nextSymbolOf wanted) :=
  (keeps_nextAs _).bind fun _ => .ite _ (.pure _) (.throw _)

theorem keeps_nextWordIs (wanted : Text) : Keeps F.call (nextWordIs wanted) :=
  (keeps_nextAs _).bind fun _ => .ite _ (.pure _) (.throw _)

theorem keeps_nextWordOf (wanted : List Text) : Keeps F.call (nextWordOf wanted) :=
  (keeps_nextAs _).bind fun _ => .ite _ (.pure _) (.throw _)

theorem keeps_condition : Keeps F.call condition :=
  (keeps_nextAs _).bind fun _ => (keeps_nextSymbolOf _).bind fun _ => (keeps_nextAs _).bind fun _ =>
    .pure _

theorem keeps_argumentsLeft : Keeps F.call argumentsLeft := .get_bind fun _ => .pure _

theorem keeps_sumFrom (a : Int) (n : Nat) : Keeps F.call (sumFrom a n) := by
  induction n generalizing a with
  | zero => exact .pure a
  | succ n ih =>
    refine (keeps_has _).bind fun _ => .ite _ ?_ (.pure a)
    exact (keeps_nextSymbolOf _).bind fun _ => (keeps_nextAs _).bind fun _ =>
      (Keeps.ofExcept _).bind fun v => ih v

theorem keeps_sum : Keeps F.call sum :=
  (keeps_nextAs _).bind fun a => keeps_argumentsLeft.bind fun n => keeps_sumFrom a n

theorem keeps_concatFrom (t : Text) (n : Nat) : Keeps F.call (concatFrom t n) := by
  induction n generalizing t with
  | zero => exact .pure t
  | succ n ih =>
    refine (keeps_has _).bind fun _ => .ite _ ?_ (.pure t)
    exact (keeps_nextSymbolIs _).bind fun _ => (keeps_nextAs _).bind fun _ => ih _

theorem keeps_concat : Keeps F.call concat :=
  (keeps_nextAs _).bind fun t => keeps_argumentsLeft.bind fun n => keeps_concatFrom t n

end Call

/-- The machines agree in the memory and the settings, in the time and in the course of the program, and the
screen is drawn on at most. -/
structure Beside (m n : Machine) : Prop where
  same : n = { m with
    palette := n.palette
    control := n.control
    screen := n.screen
    keys := n.keys
    disk := n.disk
    serial := n.serial
    speaker := n.speaker
    debugger := { m.debugger with lastPrint := n.debugger.lastPrint }
    console := n.console
    sleeps := n.sleeps
    dice := n.dice }
  screen : m.screen.Redrawn n.screen

/-- The frame allows what happens beside the program. -/
def Frame.Aside (F : Frame Machine) : Prop := ∀ ⦃m n⦄, Beside m n → F.allows m n

/-- The frame allows what happens beside the program and touches neither its course nor the lines that are
to be typed at the prompt. -/
def Frame.Still (F : Frame Machine) : Prop :=
  ∀ ⦃m n⦄, Beside m n → n.control = m.control → n.console.input = m.console.input → F.allows m n

theorem Frame.Aside.still {F : Frame Machine} (hF : F.Aside) : F.Still := fun _ _ h _ _ => hF h

namespace Machine

variable {F : Frame Machine}

theorem keeps_ask {α : Type} (f : Machine → Except Fault α) : Keeps F (ask f) := F.refl

theorem keeps_changeControl (hF : F.Aside) (f : Control → Control) : Keeps F (changeControl f) :=
  .modify fun _ => hF ⟨rfl, .refl _⟩

variable (hF : F.Still)
include hF

theorem keeps_changeScreen {f : Screen → Screen} (hf : ∀ s : Screen, s.Redrawn (f s)) :
    Keeps F (changeScreen f) :=
  .modify fun _ => hF ⟨rfl, hf _⟩ rfl rfl

theorem keeps_showCursor (on : Bool) : Keeps F (showCursor on) :=
  keeps_changeScreen hF fun s => .after s (.showCursor on) nofun

theorem keeps_closeWindow : Keeps F closeWindow :=
  keeps_changeScreen hF fun _ => .of_cells rfl rfl rfl rfl

theorem keeps_fillArea (a : Area) (p : ColourPair) : Keeps F (onScreen (Screen.fill a ' ' p)) :=
  fun m => hF ⟨rfl, .after m.screen (.fill a ' ' p) nofun⟩ rfl rfl

theorem keeps_onDisk {α : Type} (x : Run Disk α) : Keeps F (onDisk x) :=
  fun _ => hF ⟨rfl, .refl _⟩ rfl rfl

theorem keeps_type (t : Text) : Keeps F (type t) := .modify fun _ => hF ⟨rfl, .refl _⟩ rfl rfl

theorem keeps_record (level : LogLevel) (t : Text) : Keeps F (record level t) :=
  .modify fun _ => hF ⟨rfl, .refl _⟩ rfl rfl

theorem keeps_report (level : LogLevel) (kind t : Text) : Keeps F (report level kind t) := by
  refine .get_bind fun m => ?_
  have hshow : Keeps F (if m.debugger.shownTypes.contains kind then
      typeLine (kind ++ ": ".toList ++ t) else pure () : Action Unit) :=
    .ite _ (keeps_type hF _) (.pure _)
  exact .ite _ ((keeps_record hF _ _).bind fun _ => hshow) hshow

theorem keeps_reportError (kind t : Text) : Keeps F (reportError kind t) :=
  (keeps_record hF _ _).bind fun _ => keeps_type hF _

theorem keeps_logPrint (t : Text) : Keeps F (logPrint t) := by
  have hlog : Keeps F (do
      debug "PRINT".toList t
      changeDebugger fun d => { d with lastPrint := t }) :=
    (keeps_report hF _ _ _).bind fun _ => .modify fun _ => hF ⟨rfl, .refl _⟩ rfl rfl
  exact .get_bind fun _ => .ite _ ((keeps_type hF _).bind fun _ => hlog) hlog

theorem keeps_printIn (colour : ColourPair) (t : Text) : Keeps F (printIn colour t) :=
  (keeps_logPrint hF t).bind fun _ => keeps_changeScreen hF fun s => .after s (.print t colour) nofun

theorem keeps_print (t : Text) : Keeps F (print t) :=
  (keeps_logPrint hF t).bind fun _ => keeps_changeScreen hF fun s => .after s (.print t s.colour) nofun

theorem keeps_delay (tenths : Int) : Keeps F (delay tenths) := by
  refine (Keeps.ofExcept _).bind fun n => .ite _ (.pure _) (.get_bind fun m => .ite _ ?_ ?_)
  · exact .bind (.modify fun _ => hF ⟨rfl, .refl _⟩ rfl rfl) fun _ => .throw _
  · exact .modify fun _ => hF ⟨rfl, .refl _⟩ rfl rfl

theorem keeps_waitKeyIn (keys : List Int) : Keeps F (waitKeyIn keys) := by
  induction keys with
  | nil =>
    exact .bind (.modify fun _ => hF ⟨rfl, .refl _⟩ rfl rfl) fun _ =>
      (keeps_closeWindow hF).bind fun _ => .throw _
  | cons k rest ih =>
    exact .bind (.modify fun _ => hF ⟨rfl, .refl _⟩ rfl rfl) fun _ => .get_bind fun _ =>
      .ite _ (.throw _) (.ite _ ih (.pure _))

theorem keeps_waitKey : Keeps F waitKey := .get_bind fun _ => keeps_waitKeyIn hF _

theorem keeps_pollKey : Keeps F pollKey := by
  intro m
  have hrun : (pollKey.run m).2 = { m with keys := m.keys.tail } := by
    simp only [pollKey, Run.run_bind, Run.run_get, Run.run_set]
    split <;> rfl
  rw [hrun]
  exact hF ⟨rfl, .refl _⟩ rfl rfl

theorem keeps_readTyped (typed : Text) (n : Nat) : Keeps F (readTyped typed n) := by
  induction n generalizing typed with
  | zero => exact (keeps_waitKey hF).bind fun _ => .pure _
  | succ n ih =>
    refine (keeps_waitKey hF).bind fun k => .ite _ (.pure _) ((Keeps.ofExcept _).bind fun c => ?_)
    exact .ite _ ((keeps_print hF _).bind fun _ => ih _) (ih _)

theorem keeps_readText (prompt : Text) : Keeps F (readText prompt) := by
  have htyped : Keeps F (do
      let t ← readTyped [] (← get).keys.length
      newline
      return t) :=
    .get_bind fun _ => (keeps_readTyped hF _ _).bind fun _ =>
      (keeps_changeScreen hF fun s => .after s .newline nofun).bind fun _ => .pure _
  exact .ite _ ((keeps_print hF _).bind fun _ => htyped) htyped

theorem keeps_roll (low high : Int) : Keeps F (roll low high) := by
  intro m
  simp only [roll]
  split
  · exact F.refl m
  · cases hdice : m.dice with
    | nil => simp [Run.run_bind, hdice, F.refl]
    | cons r rest =>
      simp only [Run.run_bind, Run.run_get, hdice, Run.run_set, Run.run_pure]
      exact hF ⟨rfl, .refl _⟩ rfl rfl

omit hF in
theorem keeps_dataBlock
    (hblocks : ∀ (m : Machine) blocks, F.allows m { m with control := { m.control with blocks } })
    (label : Text) (a : Int) : Keeps F (Command.dataBlock label a) := by
  refine .get_bind fun m => ?_
  cases m.control.blocks.lookup label with
  | some data => exact .pure data
  | none =>
    exact (keeps_ask _).bind fun _ => .bind (.modify fun m => hblocks m _) fun _ => .pure _

end Machine

namespace Dialog

open Display

/-- The steps of a display keep the frame. -/
structure Shown {δ : Type} [Display δ] (F : Frame δ) : Prop where
  hideCursor : Keeps F (hideCursor : Run δ Unit)
  showCursor : Keeps F (showCursor : Run δ Unit)
  moveCursor : ∀ p, Keeps F (moveCursor p : Run δ Unit)
  printIn : ∀ c t, Keeps F (printIn c t : Run δ Unit)
  fillArea : ∀ a c, Keeps F (fillArea a c : Run δ Unit)
  waitKey : Keeps F (waitKey : Run δ Int)
  keysReady : Keeps F (keysReady : Run δ Nat)
  colour : ∀ name, Keeps F (colour name : Run δ ColourPair)

variable {δ : Type} [Display δ] {F : Frame δ} (hF : Shown F)
include hF

theorem keeps_waitEnter (n : Nat) : Keeps F (waitEnter n : Run δ Unit) := by
  induction n with
  | zero => exact hF.waitKey.bind fun _ => .pure _
  | succ n ih => exact hF.waitKey.bind fun _ => .ite _ (.pure _) ih

theorem keeps_alert (message : Text) : Keeps F (alert message : Run δ Unit) :=
  (hF.colour _).bind fun _ => (hF.colour _).bind fun _ => hF.hideCursor.bind fun _ =>
    (hF.fillArea _ _).bind fun _ => (hF.moveCursor _).bind fun _ => (hF.printIn _ _).bind fun _ =>
    (hF.moveCursor _).bind fun _ => (hF.printIn _ _).bind fun _ => hF.keysReady.bind fun n =>
    (keeps_waitEnter hF n).bind fun _ => hF.showCursor

namespace Listbox

theorem keeps_drawItems (b : Listbox) (c : Colours) (i : Nat) (items : List Text) :
    Keeps F (drawItems b c i items : Run δ Unit) := by
  induction items generalizing i with
  | nil => exact .pure ()
  | cons item rest ih =>
    exact (hF.moveCursor _).bind fun _ => (hF.printIn _ _).bind fun _ => ih _

theorem keeps_draw (b : Listbox) (c : Colours) : Keeps F (b.draw c : Run δ Unit) :=
  (hF.fillArea _ _).bind fun _ => (hF.fillArea _ _).bind fun _ => (hF.moveCursor _).bind fun _ =>
    (hF.printIn _ _).bind fun _ => (hF.moveCursor _).bind fun _ => (hF.printIn _ _).bind fun _ =>
    keeps_drawItems hF b c 0 b.visible

theorem keeps_follow (c : Colours) (b : Listbox) (n : Nat) : Keeps F (follow c b n : Run δ Nat) := by
  induction n generalizing b with
  | zero => exact hF.waitKey.bind fun _ => .pure _
  | succ n ih =>
    refine hF.waitKey.bind fun k =>
      .ite _ ?_ (.ite _ ?_ (.ite _ (.pure _) (.ite _ (.pure _) (ih b))))
    · exact (keeps_draw hF _ c).bind fun _ => ih _
    · exact (keeps_draw hF _ c).bind fun _ => ih _

end Listbox

theorem keeps_choose (items : List Text) (prompt1 prompt2 : Text) :
    Keeps F (choose items prompt1 prompt2 : Run δ Nat) :=
  (hF.colour _).bind fun _ => (hF.colour _).bind fun _ => (hF.colour _).bind fun _ =>
    hF.hideCursor.bind fun _ => (Listbox.keeps_draw hF _ _).bind fun _ => hF.keysReady.bind fun n =>
    Listbox.keeps_follow hF _ _ n

end Dialog

theorem Frame.Still.shown {F : Frame Machine} (hF : F.Still) : Dialog.Shown F where
  hideCursor := Machine.keeps_showCursor hF false
  showCursor := Machine.keeps_showCursor hF true
  moveCursor p := Machine.keeps_changeScreen hF fun s => .after s (.move p) nofun
  printIn := Machine.keeps_printIn hF
  fillArea := Machine.keeps_fillArea hF
  waitKey := Machine.keeps_waitKey hF
  keysReady := .get_bind fun _ => .pure _
  colour _ := Machine.keeps_ask _

/-- The frame allows what happens beside the program without touching its course, and the storing of
variables. -/
structure Frame.Calm (F : Frame Machine) : Prop where
  still : F.Still
  setNumeric : ∀ name v, Keeps F (Machine.setNumeric name v)
  setString : ∀ name t, Keeps F (Machine.setString name t)

/-- The frame allows what happens beside the program, and the storing of variables. -/
structure Frame.Roomy (F : Frame Machine) : Prop where
  aside : F.Aside
  setNumeric : ∀ name v, Keeps F (Machine.setNumeric name v)
  setString : ∀ name t, Keeps F (Machine.setString name t)

theorem Frame.Roomy.calm {F : Frame Machine} (hF : F.Roomy) : F.Calm :=
  ⟨hF.aside.still, hF.setNumeric, hF.setString⟩

end BasicMachine
