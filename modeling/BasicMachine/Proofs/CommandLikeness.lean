import BasicMachine.Proofs.CommandFrame
import BasicMachine.Proofs.Likeness

/-! Commands on two machines side by side. If variables, keywords and labels have the same values on both
sides and the program takes the same course, then so it does behind most commands. Of the others, `GOSUB`
asks where the line that runs ends, `IF` and `ELSE` look at the last condition, and a few commands look at
the memory itself or write to it. The arguments need only be read alike on both sides, but for labels, which
have to be written in the same way, and the rest of a line that is left to be run. -/
namespace BasicMachine

open Run (Alike AlikeAt Steady)

/-- The part of the control by which commands steer the program: the addresses to go on from. -/
structure Steering where
  next : Int
  doStack : List Int
  gosubStack : List Int
  loops : List (Text × ForLoop)

namespace Control

def steering (c : Control) : Steering := ⟨c.next, c.doStack, c.gosubStack, c.loops⟩

def steered (c : Control) (s : Steering) : Control :=
  { c with next := s.next, doStack := s.doStack, gosubStack := s.gosubStack, loops := s.loops }

end Control

/-- The machines see the same values, and the relation lets both store variables and take the same course.
The last condition and the pending command may differ. -/
structure Likeness (L : Core → Core → Prop) : Prop where
  numeric : ∀ {m n}, Alongside L m n → ∀ name, n.numeric name = m.numeric name
  string : ∀ {m n}, Alongside L m n → ∀ name, n.string name = m.string name
  keyword : ∀ {m n}, Alongside L m n → ∀ k : Keyword, k.value n = k.value m
  label : ∀ {m n}, Alongside L m n → ∀ t, n.labelAddress t = m.labelAddress t
  setNumeric : ∀ name v, Steady (Alongside L) (Machine.setNumeric name v)
  setString : ∀ name t, Steady (Alongside L) (Machine.setString name t)
  course : ∀ {c d}, L c d → ∃ lastIf pending, d.control = { c.control with lastIf, pending }
  steer : ∀ {c d}, L c d → ∀ s,
    L { c with control := c.control.steered s } { d with control := d.control.steered s }

namespace Likeness

variable {L : Core → Core → Prop} {m n : Machine}

theorem toNumeric (hL : Likeness L) (h : Alongside L m n) {t u : Token} (htu : t.ReadAlike u) :
    u.toNumeric n = t.toNumeric m := by
  cases htu with
  | same => cases t <;> simp only [Token.toNumeric, hL.numeric h, hL.keyword h]
  | word _ keyword => simp only [Token.toNumeric, keyword, hL.keyword h]

theorem toString (hL : Likeness L) (h : Alongside L m n) {t u : Token} (htu : t.ReadAlike u) :
    u.toString n = t.toString m := by
  cases htu with
  | same => cases t <;> simp only [Token.toString, hL.string h]
  | word => rfl

theorem toAddress (hL : Likeness L) (h : Alongside L m n) (t : Token) : t.toAddress n = t.toAddress m := by
  cases t <;> simp only [Token.toAddress, hL.label h, hL.keyword h]

theorem toLabel (hL : Likeness L) (h : Alongside L m n) (t : Token) : t.toLabel n = t.toLabel m := by
  cases t <;> simp only [Token.toLabel, hL.toAddress h]

theorem leadingNumbers (hL : Likeness L) (h : Alongside L m n) (tokens : List Token) :
    Command.leadingNumbers n tokens = Command.leadingNumbers m tokens := by
  induction tokens with
  | nil => rfl
  | cons t rest ih => simp only [Command.leadingNumbers, hL.toNumeric h (.same t), ih]

end Likeness

/-- The line that runs ends at the same place on both sides. -/
def SameReturn (L : Core → Core → Prop) : Prop :=
  ∀ c d, L c d → d.memory.nextLine d.control.counter = c.memory.nextLine c.control.counter

/-- Both sides are in the same course, and the relation lets a condition be decided. -/
structure SameCourse (L : Core → Core → Prop) : Prop where
  control : ∀ {c d}, L c d → d.control = c.control
  decide : ∀ {c d}, L c d → ∀ lastIf pending,
    L { c with control := { c.control with lastIf, pending } }
      { d with control := { d.control with lastIf, pending } }

/-- Both sides have the same memory and settings, and the relation lets them change. -/
structure SameMemory (L : Core → Core → Prop) : Prop where
  memory : ∀ {c d}, L c d → d.memory = c.memory
  settings : ∀ {c d}, L c d → d.settings = c.settings
  write : ∀ {c d}, L c d → ∀ memory, L { c with memory } { d with memory }
  set : ∀ {c d}, L c d → ∀ settings, L { c with settings } { d with settings }
  keep : ∀ {c d}, L c d → ∀ blocks,
    L { c with control := { c.control with blocks } } { d with control := { d.control with blocks } }

/-- The hooks do the same on both sides. -/
structure Hooks.Steady (R : Machine → Machine → Prop) (h : Hooks) : Prop where
  onBreak : Run.Steady R h.onBreak
  onExit : Run.Steady R h.onExit

namespace Call

variable {L : Core → Core → Prop} {ts us : List Token} (hL : Likeness L)
include hL

theorem steady_nextNumeric : Steady (CallAlongside L ts us) nextNumeric :=
  steady_nextAs fun _ _ _ _ h htu => hL.toNumeric h htu

theorem steady_nextString : Steady (CallAlongside L ts us) nextString :=
  steady_nextAs fun _ _ _ _ h htu => hL.toString h htu

section Labels

variable {c d : Call} (hcd : CallAlongside L ts us c d) (hsame : d.args.current = c.args.current)
include hcd hsame

theorem alikeAt_nextAddress : AlikeAt (CallAlongside L ts us) nextAddress nextAddress c d := by
  refine alikeAt_nextAs hcd fun t u ht hu _ => ?_
  obtain rfl : u = t := by simpa [hsame, ht] using hu.symm
  exact hL.toAddress hcd.machine u

theorem alikeAt_nextLabel : AlikeAt (CallAlongside L ts us) nextLabel nextLabel c d := by
  refine alikeAt_nextAs hcd fun t u ht hu _ => ?_
  obtain rfl : u = t := by simpa [hsame, ht] using hu.symm
  exact hL.toLabel hcd.machine u

end Labels

theorem steady_condition : Steady (CallAlongside L ts us) condition :=
  (steady_nextNumeric hL).bind fun _ => (steady_nextSymbolOf _).bind fun _ =>
    (steady_nextNumeric hL).bind fun _ => .pure _

theorem steady_sumFrom (a : Int) (n : Nat) : Steady (CallAlongside L ts us) (sumFrom a n) := by
  induction n generalizing a with
  | zero => exact .pure a
  | succ n ih =>
    apply steady_hasSymbol.bind
    intro more
    apply Alike.ite _ _ (.pure a)
    exact (steady_nextSymbolOf _).bind fun _ => (steady_nextNumeric hL).bind fun _ =>
      (Alike.ofExcept _).bind fun v => ih v

theorem steady_sum : Steady (CallAlongside L ts us) sum :=
  (steady_nextNumeric hL).bind fun a => steady_argumentsLeft.bind fun n => steady_sumFrom hL a n

theorem steady_concatFrom (t : Text) (n : Nat) : Steady (CallAlongside L ts us) (concatFrom t n) := by
  induction n generalizing t with
  | zero => exact .pure t
  | succ n ih =>
    apply steady_hasSymbol.bind
    intro more
    apply Alike.ite _ _ (.pure t)
    exact (steady_nextSymbolIs _).bind fun _ => (steady_nextString hL).bind fun _ => ih _

theorem steady_concat : Steady (CallAlongside L ts us) concat :=
  (steady_nextString hL).bind fun t => steady_argumentsLeft.bind fun n => steady_concatFrom hL t n

theorem steady_setNumeric (name : Text) (v : Int) :
    Steady (CallAlongside L ts us) (onMachine (Machine.setNumeric name v)) :=
  alike_onMachine (hL.setNumeric name v)

theorem steady_setString (name t : Text) :
    Steady (CallAlongside L ts us) (onMachine (Machine.setString name t)) :=
  alike_onMachine (hL.setString name t)

theorem steady_putNumeric (v : Int) : Steady (CallAlongside L ts us) (putNumeric v) :=
  steady_nextNumericVar.bind fun _ => steady_setNumeric hL _ v

theorem steady_putString (t : Text) : Steady (CallAlongside L ts us) (putString t) :=
  steady_nextStringVar.bind fun _ => steady_setString hL _ t

end Call

namespace Machine

section Shared

variable {L : Core → Core → Prop} (hmemory : SameMemory L)
include hmemory

theorem steady_onMemory {α : Type} (x : Run Memory α) : Steady (Alongside L) (onMemory x) := by
  rintro m n ⟨core, printed, logged, hcore, rfl⟩
  have hsame : (m.withCore core printed logged).memory = m.memory := hmemory.memory hcore
  simp only [onMemory, Run.run_onPart, hsame, true_and]
  exact ⟨_, printed, logged, hmemory.write hcore (x.run m.memory).2, rfl⟩

theorem steady_storeBlock (a : Int) (bytes : List UInt8) :
    Steady (Alongside L) (modify fun m => { m with memory := m.memory.writeData a bytes } : Action Unit) :=
  steady_onMemory hmemory (modify (Memory.writeData · a bytes))

theorem steady_setSetting (name : Text) (v : Int) : Steady (Alongside L) (setSetting name v) := by
  apply Alike.modify
  rintro m n ⟨core, printed, logged, hcore, rfl⟩
  have hsame : core.settings = m.settings := hmemory.settings hcore
  refine ⟨_, printed, logged, hmemory.set hcore (setNamed name v m.settings), ?_⟩
  rw [← hsame]
  rfl

end Shared

variable {L : Core → Core → Prop}

theorem steady_askDisk {α : Type} (f : Disk → Except Fault α) :
    Steady (Alongside L) (ask fun m => f m.disk) := by
  apply steady_ask
  rintro m n ⟨core, printed, logged, -, rfl⟩
  rfl

end Machine

namespace SameMemory

variable {L : Core → Core → Prop} (hmemory : SameMemory L)
include hmemory

theorem sameView {m n : Machine} (h : Alongside L m n) : SameView m n := by
  obtain ⟨core, printed, logged, hcore, rfl⟩ := h
  exact ⟨hmemory.memory hcore, hmemory.settings hcore, rfl⟩

theorem likeness (hcourse : ∀ {c d}, L c d → ∃ lastIf pending, d.control = { c.control with lastIf, pending })
    (hsteer : ∀ {c d}, L c d → ∀ s,
      L { c with control := c.control.steered s } { d with control := d.control.steered s }) : Likeness L where
  numeric h := (hmemory.sameView h).numeric
  string h := (hmemory.sameView h).string
  keyword h := (hmemory.sameView h).keyword
  label {m n} h t := by
    have hview := hmemory.sameView h
    simp only [Machine.labelAddress, Machine.programSize, Machine.setting, hview.memory, hview.settings]
  setNumeric name v := (Machine.steady_report _ _ _).bind fun _ => (Alike.ofExcept _).bind fun _ =>
    Machine.steady_onMemory hmemory _
  setString name t := (Alike.ofExcept _).bind fun _ => Machine.steady_storeBlock hmemory _ _
  course := hcourse
  steer := hsteer

end SameMemory

namespace Command

open Call

variable {L : Core → Core → Prop} {ts us : List Token} (hL : Likeness L) {h : Hooks} (hh : h.Steady (Alongside L))

section Flow

include hL

theorem steady_changeControl (f : Steering → Steering) :
    Steady (CallAlongside L ts us) (changeControl fun c => c.steered (f c.steering)) := by
  apply alike_onMachine
  apply Alike.modify
  rintro m n ⟨core, printed, logged, hcore, rfl⟩
  obtain ⟨lastIf, pending, hcontrol⟩ := hL.course hcore
  have hsteering : core.control.steering = m.control.steering := by
    rw [hcontrol]
    rfl
  refine ⟨_, printed, logged, hL.steer hcore (f m.control.steering), ?_⟩
  rw [← hsteering]
  rfl

/-- Going on with the control, of which the last condition and the pending command are not looked at. -/
theorem steady_control_bind {f : Control → Routine}
    (hf : ∀ c lastIf pending, Alike (CallAlongside L ts us) (f c) (f { c with lastIf, pending })) :
    Steady (CallAlongside L ts us) (control >>= f) := by
  rintro ⟨m, args⟩ ⟨n, args'⟩ hcall
  obtain ⟨lastIf, pending, hcontrol⟩ := hL.course hcall.machine.core
  have hn : n.control = { m.control with lastIf, pending } := hcontrol
  have halike := hf m.control lastIf pending
  rw [← hn] at halike
  exact halike _ _ hcall

theorem steady_jump (a : Int) : Steady (CallAlongside L ts us) (jump a) :=
  steady_changeControl hL fun s => { s with next := a }

theorem steady_runDo : Steady (CallAlongside L ts us) runDo :=
  steady_changeControl hL fun s => { s with doStack := s.next :: s.doStack }

theorem steady_runFor : Steady (CallAlongside L ts us) runFor := by
  apply steady_nextNumericVar.bind
  intro name
  apply (steady_nextSymbolIs _).bind
  intro _
  apply (steady_sum hL).bind
  intro first
  apply (steady_nextWordIs _).bind
  intro _
  apply (steady_sum hL).bind
  intro last
  apply (steady_setNumeric hL _ _).bind
  intro _
  exact steady_changeControl hL fun s =>
    { s with loops := setNamed name { state := first, last := last, start := s.next } s.loops }

section Labels

variable {c d : Call} (hcd : CallAlongside L ts us c d) (hsame : d.args.current = c.args.current)
include hcd hsame

theorem alikeAt_runGoto : AlikeAt (CallAlongside L ts us) runGoto runGoto c d :=
  (alikeAt_nextAddress hL hcd hsame).bind fun a => steady_jump hL a

theorem alikeAt_runGosub (hreturn : SameReturn L) : AlikeAt (CallAlongside L ts us) runGosub runGosub c d := by
  have hend : d.machine.memory.nextLine d.machine.control.counter =
      c.machine.memory.nextLine c.machine.control.counter := hreturn _ _ hcd.machine.core
  have hrun (c : Call) : runGosub.run c = (do
      let a ← Run.ofExcept (c.machine.memory.nextLine c.machine.control.counter)
      changeControl fun c => { c with gosubStack := (a : Int) :: c.gosubStack }
      runGoto : Routine).run c := rfl
  unfold AlikeAt
  rw [hrun, hrun, hend]
  cases c.machine.memory.nextLine c.machine.control.counter with
  | error e => exact ⟨rfl, hcd⟩
  | ok a =>
    -- only the machines change, so the argument that comes next is still the same
    have hsaved := steady_changeControl hL (fun s => { s with gosubStack := (a : Int) :: s.gosubStack }) c d hcd
    exact alikeAt_runGoto hL hsaved.2 hsame

end Labels

theorem steady_runLoop : Steady (CallAlongside L ts us) runLoop := by
  apply (steady_nextWordOf _).bind
  intro kind
  refine .ite _ ((steady_condition hL).bind fun again => ?_)
    (.ite _ (((steady_condition hL).map _).bind fun again => ?_) ((Alike.pure true).bind fun again => ?_))
  all_goals
    apply steady_control_bind hL
    intro c lastIf pending
    dsimp only
    cases c.doStack with
    | nil => exact .throw _
    | cons start rest =>
      apply (steady_changeControl hL fun s => { s with doStack := rest }).bind
      intro _
      exact .ite _ (steady_jump hL start) (.pure _)

theorem steady_runPause : Steady (CallAlongside L ts us) runPause :=
  (steady_nextNumeric hL).bind fun _ => alike_onMachine (Machine.steady_delay _)

end Flow

section Conditions

variable (hcourse : SameCourse L)
include hcourse

theorem steady_decide (f : Control → Bool × Option (List Token)) :
    Steady (CallAlongside L ts us)
      (changeControl fun c => { c with lastIf := (f c).1, pending := (f c).2 }) := by
  apply alike_onMachine
  apply Alike.modify
  rintro m n ⟨core, printed, logged, hcore, rfl⟩
  have hcontrol : core.control = m.control := hcourse.control hcore
  refine ⟨_, printed, logged, hcourse.decide hcore (f m.control).1 (f m.control).2, ?_⟩
  rw [← hcontrol]
  rfl

/-- The rest of the line is left to be run on both sides, so it has to be the same. -/
theorem steady_deferRest : Steady (CallAlongside L ts ts) deferRest :=
  steady_get fun _ k _ _ _ _ => steady_decide hcourse fun c => (c.lastIf, some (Arguments.remaining ⟨ts, k⟩))

theorem steady_runElse : Steady (CallAlongside L ts ts) runElse := by
  rintro ⟨m, args⟩ ⟨n, args'⟩ hcall
  have hcontrol : n.control = m.control := hcourse.control hcall.machine.core
  have hsteady : Steady (CallAlongside L ts ts) (if !m.control.lastIf then deferRest else pure ()) :=
    .ite _ (steady_deferRest hcourse) (.pure ())
  have hright : runElse.run ⟨n, args'⟩ = (if !n.control.lastIf then deferRest else pure ()).run ⟨n, args'⟩ :=
    rfl
  rw [hright, hcontrol]
  exact hsteady _ _ hcall

include hL

theorem steady_runIf : Steady (CallAlongside L ts ts) runIf := by
  apply (steady_condition hL).bind
  intro first
  have hmore : Steady (CallAlongside L ts ts) (andAlso first) :=
    (steady_hasWordIs _).bind fun _ => .ite _ (.ite _ (steady_condition hL) (.throw _)) (.pure _)
  apply hmore.bind
  intro result
  apply (steady_decide hcourse fun c => (result, c.pending)).bind
  intro _
  apply (steady_nextWordIs _).bind
  intro _
  exact .ite _ (steady_deferRest hcourse) (.pure _)

end Conditions

section Hooked

include hh

theorem steady_complain (kind t : Text) : Steady (CallAlongside L ts us) (onMachine (h.complain kind t)) :=
  alike_onMachine ((Machine.steady_reportError kind t).bind fun _ => hh.onBreak)

include hL

theorem steady_runAssign : Steady (CallAlongside L ts us) (runAssign h) := by
  apply steady_nextNumericVar.bind
  intro name
  apply (steady_nextSymbolIs _).bind
  intro _
  apply (steady_sum hL).bind
  intro v
  apply steady_hasAny.bind
  intro more
  have hset : Steady (CallAlongside L ts us) (onMachine (Machine.setNumeric name v)) := steady_setNumeric hL name v
  exact .ite _ ((steady_complain hh _ _).bind fun _ => hset) hset

theorem steady_runBuildString : Steady (CallAlongside L ts us) (runBuildString h) := by
  apply steady_nextStringVar.bind
  intro name
  apply (steady_nextSymbolIs _).bind
  intro _
  apply (steady_concat hL).bind
  intro t
  apply steady_hasAny.bind
  intro more
  have hset : Steady (CallAlongside L ts us) (onMachine (Machine.setString name t)) := steady_setString hL name t
  exact .ite _ ((steady_complain hh _ _).bind fun _ => hset) hset

theorem steady_runNext : Steady (CallAlongside L ts us) (runNext h) := by
  apply steady_nextNumericVar.bind
  intro name
  apply steady_control_bind hL
  intro c lastIf pending
  dsimp only
  cases c.loops.lookup name with
  | none => exact steady_complain hh _ _
  | some l =>
    apply (steady_changeControl hL fun s => { s with loops := setNamed name l.increment s.loops }).bind
    intro _
    apply (steady_setNumeric hL _ _).bind
    intro _
    apply Alike.ite _ _ (steady_jump hL _)
    exact steady_changeControl hL fun s => { s with loops := eraseNamed name s.loops }

theorem steady_runReturn : Steady (CallAlongside L ts us) (runReturn h) := by
  apply steady_control_bind hL
  intro c lastIf pending
  dsimp only
  cases c.gosubStack with
  | nil => exact steady_complain hh _ _
  | cons a rest =>
    exact (steady_changeControl hL fun s => { s with gosubStack := rest }).bind fun _ =>
      steady_jump hL a

end Hooked

section Screen

theorem steady_print (t : Text) : Steady (CallAlongside L ts us) (onMachine (Machine.print t)) :=
  alike_onMachine (Machine.steady_print t)

theorem steady_printRows (names : List Text) : Steady (Alongside L) (printRows names) := by
  fun_induction printRows names with
  | case1 a b c d e rest ih =>
    exact (Alike.forM (fun _ => Machine.steady_print _) _).bind fun _ =>
      (Machine.steady_changeScreen _).bind fun _ => ih
  | case2 => exact .pure ()

theorem steady_runCursor : Steady (CallAlongside L ts us) runCursor :=
  (steady_nextWordOf _).bind fun _ => alike_onMachine (Machine.steady_showCursor _)

theorem steady_runFiles : Steady (CallAlongside L ts us) runFiles :=
  steady_get fun m _ _ _ _ _ => alike_onMachine (steady_printRows m.disk.shortNames)

include hL

theorem steady_runPrint : Steady (CallAlongside L ts us) runPrint := by
  have hend : Steady (CallAlongside L ts us) (do if !(← hasSymbolIs [';']) then Machine.print ['\n']) :=
    (steady_hasSymbolIs _).bind fun _ => .ite _ (steady_print _) (.pure _)
  apply (steady_expectArguments 1).bind
  intro _
  apply steady_hasString.bind
  intro _
  apply Alike.ite
  · exact (steady_nextString hL).bind fun _ => (steady_print _).bind fun _ => hend
  apply steady_hasNumeric.bind
  intro _
  apply Alike.ite
  · exact (steady_nextNumeric hL).bind fun _ => (steady_print _).bind fun _ => hend
  apply steady_hasWord.bind
  intro _
  apply Alike.ite
  · exact (steady_nextWordOf _).bind fun _ => (steady_nextNumeric hL).bind fun _ =>
      .ite _ ((steady_print _).bind fun _ => hend) ((Alike.throw _).bind fun _ => hend)
  · exact (Alike.throw _).bind fun _ => hend

theorem steady_runCursorChar : Steady (CallAlongside L ts us) runCursorChar := by
  apply steady_get
  intro m k core printed logged _
  dsimp only [Machine.withCore]
  cases CodePage.encodeChar? m.screen.cursorCell.char with
  | some b => exact steady_putNumeric hL _
  | none => exact .throw _

theorem steady_runCursorColour : Steady (CallAlongside L ts us) runCursorColour :=
  steady_get fun _ _ _ _ _ _ => steady_putNumeric hL _

theorem steady_runCursorPosition : Steady (CallAlongside L ts us) runCursorPosition :=
  steady_get fun _ _ _ _ _ _ => (steady_putNumeric hL _).bind fun _ => steady_putNumeric hL _

theorem steady_runInk : Steady (CallAlongside L ts us) runInk :=
  (steady_nextNumeric hL).bind fun _ => (Alike.ofExcept _).bind fun _ =>
    alike_onMachine (Machine.steady_modify (fun _ => rfl) fun _ _ _ _ => ⟨_, _, rfl⟩)

theorem steady_runMove : Steady (CallAlongside L ts us) runMove :=
  (steady_nextNumeric hL).bind fun _ => (steady_nextNumeric hL).bind fun _ =>
    alike_onMachine (Machine.steady_changeScreen _)

theorem steady_runInput : Steady (CallAlongside L ts us) runInput := by
  apply (alike_onMachine (Machine.steady_readText [])).bind
  intro t
  apply steady_hasStringVar.bind
  intro _
  apply Alike.ite _ (steady_putString hL t)
  apply steady_hasNumericVar.bind
  intro _
  apply Alike.ite _ _ (.throw _)
  cases Text.readInteger? t with
  | some n => exact steady_putNumeric hL n
  | none => exact .throw _

theorem steady_runAlert : Steady (CallAlongside L ts us) runAlert :=
  (steady_nextString hL).bind fun t => alike_onMachine (Dialog.steady_alert (Alongside.mirrored L) t)

theorem steady_runListBox : Steady (CallAlongside L ts us) runListBox :=
  (steady_nextString hL).bind fun _ => (steady_nextString hL).bind fun _ =>
    (steady_nextString hL).bind fun _ =>
    (alike_onMachine (Dialog.steady_choose (Alongside.mirrored L) _ _ _)).bind fun _ =>
    steady_putNumeric hL _

theorem steady_runAskFile : Steady (CallAlongside L ts us) runAskFile := by
  apply steady_get
  intro m k core printed logged _
  apply (alike_onMachine (Dialog.steady_choose (Alongside.mirrored L) m.disk.shortNames _ _)).bind
  intro n
  exact .ite _ (steady_putString hL _) ((Alike.ofExcept _).bind fun _ => steady_putString hL _)

end Screen

section Files

theorem steady_sizeOf (name : Text) : Steady (CallAlongside L ts us) (sizeOf name) :=
  steady_get fun _ _ _ _ _ _ => .ofExcept _

include hL

theorem steady_setResult (n : Int) : Steady (CallAlongside L ts us) (setResult n) := steady_setNumeric hL _ n

theorem steady_setSize (n : Nat) : Steady (CallAlongside L ts us) (setSize n) :=
  (steady_setResult hL 0).bind fun _ => steady_setNumeric hL _ n

theorem steady_attempt {α : Type} {x : Run Call α} {code : Fault → Option Int} {done : α → Routine}
    (hx : Steady (CallAlongside L ts us) x) (hdone : ∀ a, Steady (CallAlongside L ts us) (done a)) :
    Steady (CallAlongside L ts us) (attempt x code done) := by
  apply Alike.bind
  · apply Alike.tryCatch (hx.bind fun _ => .pure _)
    intro e
    cases code e with
    | none => exact .throw e
    | some n => exact .pure _
  · intro r
    cases r with
    | ok a => exact hdone a
    | error n => exact steady_setResult hL n

theorem steady_runDelete : Steady (CallAlongside L ts us) runDelete :=
  steady_attempt hL ((steady_nextString hL).bind fun _ => alike_onMachine (Machine.steady_onDisk _))
    fun _ => steady_setResult hL 0

theorem steady_runRename : Steady (CallAlongside L ts us) runRename :=
  steady_attempt hL ((steady_nextString hL).bind fun _ => (steady_nextString hL).bind fun _ =>
    alike_onMachine (Machine.steady_onDisk _)) fun _ => steady_setResult hL 0

theorem steady_runSize : Steady (CallAlongside L ts us) runSize :=
  steady_attempt hL ((steady_nextString hL).bind fun _ => steady_sizeOf _) (steady_setSize hL)

end Files

section Contents

include hL

theorem steady_askString (name : Text) :
    Steady (CallAlongside L ts us) (onMachine (Machine.ask (Machine.string · name))) :=
  alike_onMachine (Machine.steady_ask fun _ _ h => hL.string h name)

theorem steady_runCase : Steady (CallAlongside L ts us) runCase :=
  (steady_nextWordOf _).bind fun _ => steady_nextStringVar.bind fun name =>
    (steady_askString hL name).bind fun _ => steady_setString hL _ _

theorem steady_runLength : Steady (CallAlongside L ts us) runLength :=
  (steady_nextString hL).bind fun _ => steady_putNumeric hL _

theorem steady_runNumber : Steady (CallAlongside L ts us) runNumber := by
  apply (steady_expectArguments 2).bind
  intro _
  apply steady_hasString.bind
  intro _
  apply Alike.ite
  · apply (steady_nextString hL).bind
    intro t
    cases Text.readInteger? t with
    | none => exact .throw _
    | some n => exact steady_putNumeric hL n
  · exact steady_hasNumeric.bind fun _ =>
      .ite _ ((steady_nextNumeric hL).bind fun _ => steady_putString hL _) (.pure _)

theorem steady_runString : Steady (CallAlongside L ts us) runString :=
  steady_nextStringVar.bind fun name => (steady_askString hL name).bind fun _ =>
    (steady_nextNumeric hL).bind fun _ => (steady_nextNumeric hL).bind fun _ =>
    (Alike.ofExcept _).bind fun _ => steady_setString hL _ _

end Contents

section Hardware

include hL

theorem steady_runGetKey : Steady (CallAlongside L ts us) runGetKey :=
  (alike_onMachine Machine.steady_pollKey).bind fun _ => steady_putNumeric hL _

theorem steady_runWaitKey : Steady (CallAlongside L ts us) runWaitKey :=
  (alike_onMachine Machine.steady_waitKey).bind fun _ => steady_putNumeric hL _

theorem steady_runSerial : Steady (CallAlongside L ts us) runSerial := by
  have hsend (v : Int) : Steady (Alongside L) (Machine.sendSerial v) := by
    apply (Machine.steady_ask ?_).bind
    · intro serial
      exact Machine.steady_modify (fun _ => rfl) fun _ _ _ _ => ⟨_, _, rfl⟩
    · rintro m n ⟨core, printed, logged, -, rfl⟩
      rfl
  apply (steady_nextWordOf _).bind
  intro keyword
  apply Alike.ite
  · exact (steady_nextNumeric hL).bind fun _ =>
      alike_onMachine (Machine.steady_modify (fun _ => rfl) fun _ _ _ _ => ⟨_, _, rfl⟩)
  · exact .ite _ ((steady_nextNumeric hL).bind fun v => alike_onMachine (hsend v)) (.pure _)

theorem steady_runSound : Steady (CallAlongside L ts us) runSound := by
  have hsound (e : SpeakerEvent) : Steady (Alongside L) (Machine.addSound e) :=
    Machine.steady_modify (fun _ => rfl) fun _ _ _ _ => ⟨_, _, rfl⟩
  have hplay (frequency tenths : Int) : Steady (Alongside L) (Machine.playTone frequency tenths) := by
    apply (Machine.steady_ask ?_).bind
    · intro n
      exact (hsound _).bind fun _ => (Machine.steady_delay _).bind fun _ => hsound _
    · rintro m n ⟨core, printed, logged, -, rfl⟩
      rfl
  exact (steady_nextNumeric hL).bind fun _ => (steady_nextNumeric hL).bind fun _ =>
    alike_onMachine (hplay _ _)

theorem steady_runRandom : Steady (CallAlongside L ts us) runRandom :=
  steady_nextNumericVar.bind fun _ => (steady_nextNumeric hL).bind fun _ =>
    (steady_nextNumeric hL).bind fun _ =>
    (alike_onMachine (Machine.steady_roll _ _)).bind fun _ => steady_setNumeric hL _ _

end Hardware

section Bytes

variable (hmemory : SameMemory L)
include hmemory

theorem steady_askMemory {α : Type} (f : Memory → Except Fault α) :
    Steady (CallAlongside L ts us) (onMachine (Machine.ask fun m => f m.memory)) := by
  apply alike_onMachine
  apply Machine.steady_ask
  intro m n h
  have hsame : n.memory = m.memory := hmemory.memory h.core
  rw [hsame]

include hL

theorem steady_runPeek : Steady (CallAlongside L ts us) runPeek :=
  steady_nextNumericVar.bind fun _ => (steady_nextNumeric hL).bind fun a =>
    (steady_askMemory hmemory fun memory => memory.readByte a).bind fun _ => steady_setNumeric hL _ _

theorem steady_runPeekInt : Steady (CallAlongside L ts us) runPeekInt :=
  steady_nextNumericVar.bind fun _ => (steady_nextNumeric hL).bind fun a =>
    (steady_askMemory hmemory fun memory => memory.readWord a).bind fun _ => steady_setNumeric hL _ _

theorem steady_runPoke : Steady (CallAlongside L ts us) runPoke :=
  (steady_nextNumeric hL).bind fun _ => (steady_nextNumeric hL).bind fun _ =>
    alike_onMachine (Machine.steady_onMemory hmemory _)

theorem steady_runPokeInt : Steady (CallAlongside L ts us) runPokeInt :=
  (steady_nextNumeric hL).bind fun _ => (steady_nextNumeric hL).bind fun _ =>
    alike_onMachine (Machine.steady_onMemory hmemory _)

theorem steady_runLoad : Steady (CallAlongside L ts us) runLoad := by
  have hload (name : Text) (a : Int) : Steady (Alongside L) (Machine.loadFile name a) :=
    (Machine.steady_askDisk (Disk.load · name)).bind fun bytes =>
      Machine.steady_storeBlock hmemory a bytes
  apply steady_attempt hL _ (steady_setSize hL)
  exact (steady_nextString hL).bind fun _ => (steady_nextNumeric hL).bind fun _ =>
    (steady_sizeOf _).bind fun _ => (alike_onMachine (hload _ _)).bind fun _ => .pure _

theorem steady_runSave : Steady (CallAlongside L ts us) runSave := by
  have hsave (name : Text) (a n : Int) : Steady (Alongside L) (Machine.saveFile name a n) := by
    apply Machine.steady_get
    intro m core printed logged hcore
    have hsame : core.memory = m.memory := hmemory.memory hcore
    simp only [Machine.withCore, hsame]
    exact Machine.steady_onDisk _
  apply steady_attempt hL _ fun _ => steady_setResult hL 0
  apply (steady_nextString hL).bind
  intro name
  apply (steady_nextNumeric hL).bind
  intro a
  apply (steady_nextNumeric hL).bind
  intro n
  apply steady_get
  intro m k core printed logged _
  apply (Alike.ofExcept (m.disk.hasFile name)).bind
  intro there
  exact .ite _ (steady_setResult hL 2)
    ((alike_onMachine (hsave name a n)).bind fun _ => steady_setResult hL 0)

theorem alikeAt_runReadData {c d : Call} (hcd : CallAlongside L ts us c d)
    (hsame : d.args.current = c.args.current) :
    AlikeAt (CallAlongside L ts us) runReadData runReadData c d := by
  have hblock (label : Text) (a : Int) : Steady (Alongside L) (dataBlock label a) := by
    apply Machine.steady_get
    intro m core printed logged hcore
    obtain ⟨lastIf, pending, hcontrol⟩ := hL.course hcore
    have hblocks : (m.withCore core printed logged).control.blocks = m.control.blocks := by
      rw [show (m.withCore core printed logged).control = core.control from rfl, hcontrol]
      rfl
    rw [hblocks]
    cases m.control.blocks.lookup label with
    | some data => exact .pure data
    | none =>
      apply Alike.bind
      · apply Machine.steady_ask
        intro m n h
        have hsame : n.memory = m.memory := hmemory.memory h.core
        have hattached : n.attached = m.attached := by
          obtain ⟨core, printed, logged, -, rfl⟩ := h
          rfl
        simp only [readBlock, hsame, hattached, hL.leadingNumbers h]
      · intro data
        apply Alike.bind _ fun _ => .pure data
        apply Alike.modify
        rintro m n ⟨core, printed, logged, hcore, rfl⟩
        obtain ⟨lastIf, pending, hcontrol⟩ := hL.course hcore
        have hblocks : core.control.blocks = m.control.blocks := by
          rw [hcontrol]
          rfl
        refine ⟨_, printed, logged, hmemory.keep hcore (setNamed label data m.control.blocks), ?_⟩
        rw [← hblocks]
        rfl
  apply (alikeAt_nextLabel hL hcd hsame).bind
  rintro ⟨label, a⟩
  apply (alike_onMachine (hblock label a)).bind
  intro data
  apply (steady_nextNumeric hL).bind
  intro i
  exact .ite _ (.throw _) ((Alike.ofExcept _).bind fun _ => steady_putNumeric hL _)

include hh

theorem steady_runInclude : Steady (CallAlongside L ts us) (runInclude h) := by
  have hinclude (name : Text) (size : Int) : Steady (Alongside L) (includeFileAt name size) :=
    (Machine.steady_askDisk (Disk.size · name)).bind fun _ =>
      (Machine.steady_askDisk (Disk.load · name)).bind fun _ =>
      (Machine.steady_storeBlock hmemory _ _).bind fun _ => Machine.steady_setSetting hmemory _ _
  apply (steady_nextString hL).bind
  intro name
  apply steady_get
  intro m k core printed logged hcore
  have hsize : (m.withCore core printed logged).programSize = m.programSize := by
    simp only [Machine.programSize, Machine.setting]
    rw [show (m.withCore core printed logged).settings = m.settings from hmemory.settings hcore]
  dsimp only
  rw [hsize]
  apply Alike.tryCatch (alike_onMachine (hinclude name _))
  intro e
  exact .ite _ (steady_complain hh _ _) (.throw e)

end Bytes

/-- What a command needs of the two sides beside the same values. -/
def Needs (L : Core → Core → Prop) : Command → Prop
  | gosub => SameReturn L
  | ifThen | elseThen => SameCourse L
  | includeFile | load | save | peek | poke | peekInt | pokeInt | readData => SameMemory L
  | _ => True

/-- The commands that read a label. -/
def takesLabel : Command → Bool
  | goto | gosub | readData => true
  | _ => false

/-- How many arguments stand in front of the rest of the line, if the command leaves that to be run next. -/
def restAt? : Command → Option Nat
  | ifThen => some 4
  | elseThen => some 0
  | _ => none

section Lines

include hL hh

/-- Every command does the same on both sides, if both write its label in the same way and have the same rest of
the line to leave. -/
theorem alikeAt_routine {c d : Call} (hcd : CallAlongside L ts us c d) (command : Command)
    (hneeds : command.Needs L) (hlabel : command.takesLabel = true → d.args.current = c.args.current)
    (hrest : command.restAt? ≠ none → us = ts) :
    AlikeAt (CallAlongside L ts us) (command.routine h) (command.routine h) c d := by
  cases command with
  | assign => exact steady_runAssign hL hh c d hcd
  | buildString => exact steady_runBuildString hL hh c d hcd
  | alert => exact steady_runAlert hL c d hcd
  | askFile => exact steady_runAskFile hL c d hcd
  | clearScreen => exact alike_onMachine (Machine.steady_changeScreen _) c d hcd
  | cursorChar => exact steady_runCursorChar hL c d hcd
  | cursorColour => exact steady_runCursorColour hL c d hcd
  | cursor => exact steady_runCursor c d hcd
  | cursorPosition => exact steady_runCursorPosition hL c d hcd
  | files => exact steady_runFiles c d hcd
  | ink => exact steady_runInk hL c d hcd
  | input => exact steady_runInput hL c d hcd
  | listBox => exact steady_runListBox hL c d hcd
  | move => exact steady_runMove hL c d hcd
  | print => exact steady_runPrint hL c d hcd
  | breakPoint => exact alike_onMachine hh.onBreak c d hcd
  | callCode => exact steady_complain hh _ _ c d hcd
  | doLoop => exact steady_runDo hL c d hcd
  | elseThen =>
    obtain rfl := hrest nofun
    exact steady_runElse hneeds c d hcd
  | endProgram => exact alike_onMachine hh.onExit c d hcd
  | forLoop => exact steady_runFor hL c d hcd
  | gosub => exact alikeAt_runGosub hL hcd (hlabel rfl) hneeds
  | goto => exact alikeAt_runGoto hL hcd (hlabel rfl)
  | ifThen =>
    obtain rfl := hrest nofun
    exact steady_runIf hL hneeds c d hcd
  | includeFile => exact steady_runInclude hL hh hneeds c d hcd
  | loop => exact steady_runLoop hL c d hcd
  | next => exact steady_runNext hL hh c d hcd
  | pause => exact steady_runPause hL c d hcd
  | returnSub => exact steady_runReturn hL hh c d hcd
  | delete => exact steady_runDelete hL c d hcd
  | load => exact steady_runLoad hL hneeds c d hcd
  | rename => exact steady_runRename hL c d hcd
  | save => exact steady_runSave hL hneeds c d hcd
  | size => exact steady_runSize hL c d hcd
  | changeCase => exact steady_runCase hL c d hcd
  | length => exact steady_runLength hL c d hcd
  | number => exact steady_runNumber hL c d hcd
  | string => exact steady_runString hL c d hcd
  | getKey => exact steady_runGetKey hL c d hcd
  | waitKey => exact steady_runWaitKey hL c d hcd
  | port => exact steady_complain hh _ _ c d hcd
  | serial => exact steady_runSerial hL c d hcd
  | sound => exact steady_runSound hL c d hcd
  | peek => exact steady_runPeek hL hneeds c d hcd
  | poke => exact steady_runPoke hL hneeds c d hcd
  | peekInt => exact steady_runPeekInt hL hneeds c d hcd
  | pokeInt => exact steady_runPokeInt hL hneeds c d hcd
  | random => exact steady_runRandom hL c d hcd
  | readData => exact alikeAt_runReadData hL hneeds hcd (hlabel rfl)

/-- Tokens that do not begin with a word, and are read alike, do the same on both sides. -/
theorem alikeAt_dispatch {m n : Machine} (hmn : Alongside L m n) (halike : ReadAlikeFrom 0 ts us)
    (hfirst : ∀ w, ts.head? ≠ some (.word w)) :
    AlikeAt (CallAlongside L ts us) (dispatch h) (dispatch h) ⟨m, ⟨ts, 0⟩⟩ ⟨n, ⟨us, 0⟩⟩ := by
  have hcall : CallAlongside L ts us ⟨m, ⟨ts, 0⟩⟩ ⟨n, ⟨us, 0⟩⟩ := ⟨hmn, 0, rfl, rfl, halike⟩
  unfold AlikeAt
  cases ts with
  | nil =>
    obtain rfl : us = [] := List.length_eq_zero_iff.mp halike.length
    exact ⟨rfl, hcall⟩
  | cons t ts =>
    obtain ⟨u, us, rfl⟩ := List.exists_cons_of_length_eq_add_one halike.length
    have htu := halike.tokens 0 (Nat.le_refl 0) t u rfl rfl
    cases htu with
    | word => exact absurd rfl (hfirst _)
    | same =>
      rw [run_dispatch_cons, run_dispatch_cons]
      cases t with
      | word w => exact absurd rfl (hfirst w)
      | numericVar name => exact steady_runAssign hL hh _ _ hcall
      | stringVar name => exact steady_runBuildString hL hh _ _ hcall
      | _ => exact ⟨rfl, hcall⟩

/-- A command does the same on both sides, in whatever way its name is written. -/
theorem alikeAt_dispatch_word {m n : Machine} (hmn : Alongside L m n) {v w : Text} (letters : upper v = upper w)
    (halike : ReadAlikeFrom 1 (.word v :: ts) (.word w :: us))
    (hneeds : ∀ c ∈ ofName? (upper v), c.Needs L)
    (hlabel : ∀ c ∈ ofName? (upper v), c.takesLabel = true →
      Arguments.current ⟨.word w :: us, 1⟩ = Arguments.current ⟨.word v :: ts, 1⟩)
    (hrest : ∀ c ∈ ofName? (upper v), c.restAt? ≠ none → .word w :: us = .word v :: ts) :
    AlikeAt (CallAlongside L (.word v :: ts) (.word w :: us)) (dispatch h) (dispatch h)
      ⟨m, ⟨.word v :: ts, 0⟩⟩ ⟨n, ⟨.word w :: us, 0⟩⟩ := by
  have hcall : CallAlongside L (.word v :: ts) (.word w :: us) ⟨m, ⟨.word v :: ts, 1⟩⟩
      ⟨n, ⟨.word w :: us, 1⟩⟩ := ⟨hmn, 1, rfl, rfl, halike⟩
  unfold AlikeAt
  rw [run_dispatch_word, run_dispatch_word, ← letters, dispatch.execute]
  cases hname : ofName? (upper v) with
  | some c => exact alikeAt_routine hL hh hcall c (hneeds c hname) (hlabel c hname) (hrest c hname)
  | none => exact ⟨rfl, hcall⟩

theorem steady_runTokens {tokens : List Token} (hc : ∀ c ∈ commandOf? tokens, c.Needs L) :
    Steady (Alongside L) (runTokens h tokens) := by
  intro m n hmn
  have hdispatch : AlikeAt (CallAlongside L tokens tokens) (dispatch h) (dispatch h) ⟨m, ⟨tokens, 0⟩⟩
      ⟨n, ⟨tokens, 0⟩⟩ := by
    by_cases hword : ∃ w, tokens.head? = some (.word w)
    · obtain ⟨w, hw⟩ := hword
      obtain ⟨ts, rfl⟩ := List.head?_eq_some_iff.mp hw
      exact alikeAt_dispatch_word hL hh hmn rfl (.refl 1 _) hc (fun _ _ _ => rfl) fun _ _ _ => rfl
    · exact alikeAt_dispatch hL hh hmn (.refl 0 _) (not_exists.mp hword)
  exact ⟨hdispatch.1, hdispatch.2.machine⟩

theorem steady_runLine {line : Text}
    (hc : ∀ tokens, Token.parse line = .ok tokens → ∀ c ∈ commandOf? tokens, c.Needs L) :
    Steady (Alongside L) (runLine h line) := by
  apply (Machine.steady_report _ _ _).bind
  intro _
  cases hparse : Token.parse line with
  | error e => exact .throw e
  | ok tokens => exact steady_runTokens hL hh (hc tokens hparse)

end Lines
end Command
end BasicMachine
