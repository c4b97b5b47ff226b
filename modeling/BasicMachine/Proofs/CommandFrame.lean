import BasicMachine.Proofs.Argument
import BasicMachine.Proofs.Frame

/-! What the commands may change. Each command steers the course of the program in a way of its own, and most
do not touch it. A frame that allows this much, what else happens beside the program and the storing of
variables is kept by every command but the four that write to the memory at an address of their own. Those
keep it too if it allows bytes and blocks to be stored anywhere, and then so do all lines and the debugger,
which runs lines of its own. -/
namespace BasicMachine

open Run (Keeps)

/-- The frame allows the changes of the control that the relation describes. -/
def Frame.Steered (F : Frame Machine) (R : Control → Control → Prop) : Prop :=
  ∀ (m : Machine) (control : Control), R m.control control → F.allows m { m with control }

theorem Frame.Aside.steered {F : Frame Machine} (hF : F.Aside) (R : Control → Control → Prop) :
    F.Steered R := fun _ _ _ => hF ⟨rfl, .refl _⟩

/-- The variable that the arguments go on with. -/
def Arguments.numericVar? (a : Arguments) : Option Text :=
  match a.current with
  | .ok (some (.numericVar name)) => some name
  | _ => none

/-- The hooks keep the frame. -/
structure Hooks.Keep (F : Frame Machine) (h : Hooks) : Prop where
  onBreak : Keeps F h.onBreak
  onExit : Keeps F h.onExit

/-- The frame allows bytes and blocks to be stored at any address, and any size of the program. -/
structure Frame.Writable (F : Frame Machine) : Prop where
  byte : ∀ a v, Keeps F (Machine.onMemory (Memory.writeByte a v))
  block : ∀ m a bytes, F.allows m { m with memory := m.memory.writeData a bytes }
  size : ∀ m size, F.allows m { m with settings := setNamed "prog_size".toList size m.settings }

namespace Machine

theorem onMemory_bind {α β : Type} (x : Run Memory α) (f : α → Run Memory β) :
    onMemory (x >>= f) = onMemory x >>= fun a => onMemory (f a) := by
  refine Run.ext fun m => ?_
  rcases hrun : x.run m.memory with ⟨r, memory⟩
  cases r <;> simp [onMemory, Run.run_bind, hrun]

end Machine

namespace Frame.Writable

variable {F : Frame Machine}

theorem of_any (h : ∀ m memory settings, F.allows m { m with memory, settings }) : F.Writable where
  byte _ _ := fun m => h m _ m.settings
  block m _ _ := h m _ m.settings
  size m _ := h m m.memory _

theorem word (hF : F.Writable) (a v : Int) : Keeps F (Machine.onMemory (Memory.writeWord a v)) := by
  rw [Memory.writeWord, Machine.onMemory_bind]
  exact (hF.byte a v).bind fun _ => hF.byte (a + 1) (v / 256)

end Frame.Writable

namespace Command

open Call

/-- The command writes to the memory at an address of its own. -/
def writesMemory : Command → Bool
  | includeFile | load | poke | pokeInt => true
  | _ => false

/-- How the command with these arguments may steer the course of the program. The loops of the variables that
it does not name stay as they are, and no command changes the address of the line that runs. -/
def steers (a : Arguments) : Command → Control → Control → Prop
  | doLoop, c, d => d = { c with doStack := d.doStack }
  | elseThen, c, d | ifThen, c, d => d = { c with lastIf := d.lastIf, pending := d.pending }
  | forLoop, c, d =>
    (∀ k, a.numericVar? ≠ some k → d.loops.lookup k = c.loops.lookup k) ∧ d = { c with loops := d.loops }
  | next, c, d =>
    (∀ k, a.numericVar? ≠ some k → d.loops.lookup k = c.loops.lookup k) ∧
      d = { c with loops := d.loops, next := d.next }
  | gosub, c, d | returnSub, c, d => d = { c with gosubStack := d.gosubStack, next := d.next }
  | goto, c, d => d = { c with next := d.next }
  | loop, c, d => d = { c with doStack := d.doStack, next := d.next }
  | readData, c, d => d = { c with blocks := d.blocks }
  | _, c, d => d = c

variable {F : Frame Machine} (hF : F.Calm) {h : Hooks} (hh : h.Keep F)

section Stores

include hF

theorem keeps_setNumeric (name : Text) (v : Int) :
    Keeps F.call (onMachine (Machine.setNumeric name v)) := keeps_onMachine (hF.setNumeric name v)

theorem keeps_setString (name t : Text) :
    Keeps F.call (onMachine (Machine.setString name t)) := keeps_onMachine (hF.setString name t)

theorem keeps_putNumeric (v : Int) : Keeps F.call (putNumeric v) :=
  (keeps_nextAs _).bind fun _ => keeps_setNumeric hF _ v

theorem keeps_putString (t : Text) : Keeps F.call (putString t) :=
  (keeps_nextAs _).bind fun _ => keeps_setString hF _ t

end Stores

theorem keeps_changeControl {R : Control → Control → Prop} (hsteer : F.Steered R)
    {f : Control → Control} (hf : ∀ c, R c (f c)) : Keeps F.call (changeControl f) :=
  keeps_onMachine (.modify fun m => hsteer m _ (hf m.control))

theorem keeps_control : Keeps F.call control := .get_bind fun _ => .pure _

theorem keeps_ask {α : Type} (f : Machine → Except Fault α) :
    Keeps F.call (onMachine (Machine.ask f)) := keeps_onMachine (Machine.keeps_ask f)

theorem keeps_sizeOf (name : Text) : Keeps F.call (sizeOf name) := .get_bind fun _ => .ofExcept _

section Screen

include hF

theorem keeps_print (t : Text) : Keeps F.call (onMachine (Machine.print t)) :=
  keeps_onMachine (Machine.keeps_print hF.still t)

theorem keeps_runPrint : Keeps F.call runPrint := by
  have hend : Keeps F.call (do if !(← hasSymbolIs [';']) then Machine.print ['\n']) :=
    (keeps_hasSymbolIs _).bind fun _ => .ite _ (keeps_print hF _) (.pure _)
  refine (keeps_expectArguments 1).bind fun _ => (keeps_has _).bind fun _ => .ite _ ?_ ?_
  · exact (keeps_nextAs _).bind fun _ => (keeps_print hF _).bind fun _ => hend
  · refine (keeps_has _).bind fun _ => .ite _ ?_ ?_
    · exact (keeps_nextAs _).bind fun _ => (keeps_print hF _).bind fun _ => hend
    · refine (keeps_has _).bind fun _ => .ite _ ?_ ?_
      · exact (keeps_nextWordOf _).bind fun _ => (keeps_nextAs _).bind fun _ =>
          .ite _ ((keeps_print hF _).bind fun _ => hend) ((Keeps.throw _).bind fun _ => hend)
      · exact (Keeps.throw _).bind fun _ => hend

theorem keeps_runCursor : Keeps F.call runCursor :=
  (keeps_nextWordOf _).bind fun _ => keeps_onMachine (Machine.keeps_showCursor hF.still _)

theorem keeps_runCursorChar : Keeps F.call runCursorChar := by
  refine .get_bind fun c => ?_
  dsimp only
  split
  · exact keeps_putNumeric hF _
  · exact .throw _

theorem keeps_runCursorPosition : Keeps F.call runCursorPosition :=
  .get_bind fun _ => (keeps_putNumeric hF _).bind fun _ => keeps_putNumeric hF _

theorem keeps_runInk : Keeps F.call runInk :=
  (keeps_nextAs _).bind fun _ => (Keeps.ofExcept _).bind fun _ =>
    keeps_onMachine (.modify fun _ => hF.still ⟨rfl, .refl _⟩ rfl rfl)

theorem keeps_runMove : Keeps F.call runMove :=
  (keeps_nextAs _).bind fun _ => (keeps_nextAs _).bind fun _ =>
    keeps_onMachine (Machine.keeps_changeScreen hF.still fun s => .after s (.move _) nofun)

theorem keeps_runInput : Keeps F.call runInput := by
  refine (keeps_onMachine (Machine.keeps_readText hF.still [])).bind fun t => (keeps_has _).bind fun _ =>
    .ite _ (keeps_putString hF t) ((keeps_has _).bind fun _ => .ite _ ?_ (.throw _))
  split
  · exact keeps_putNumeric hF _
  · exact .throw _

theorem keeps_runAlert : Keeps F.call runAlert :=
  (keeps_nextAs _).bind fun t => keeps_onMachine (Dialog.keeps_alert hF.still.shown t)

theorem keeps_runListBox : Keeps F.call runListBox :=
  (keeps_nextAs _).bind fun _ => (keeps_nextAs _).bind fun _ => (keeps_nextAs _).bind fun _ =>
    (keeps_onMachine (Dialog.keeps_choose hF.still.shown _ _ _)).bind fun _ => keeps_putNumeric hF _

theorem keeps_runAskFile : Keeps F.call runAskFile :=
  .get_bind fun _ => (keeps_onMachine (Dialog.keeps_choose hF.still.shown _ _ _)).bind fun _ =>
    .ite _ (keeps_putString hF _) ((Keeps.ofExcept _).bind fun _ => keeps_putString hF _)

theorem keeps_printRows (names : List Text) : Keeps F (printRows names) := by
  fun_induction printRows names with
  | case1 a b c d e rest ih =>
    exact (Keeps.forM (fun _ => Machine.keeps_print hF.still _) _).bind fun _ =>
      (Machine.keeps_changeScreen hF.still fun s => .after s .newline nofun).bind fun _ => ih
  | case2 => exact .pure ()

end Screen

section Flow

variable {a : Arguments}

theorem keeps_jump {R : Control → Control → Prop} (hsteer : F.Steered R)
    (hjump : ∀ c b, R c { c with next := b }) (b : Int) : Keeps F.call (jump b) :=
  keeps_changeControl hsteer fun c => hjump c b

theorem keeps_runDo (hsteer : F.Steered (doLoop.steers a)) : Keeps F.call runDo :=
  keeps_changeControl hsteer fun _ => rfl

theorem keeps_deferRest {R : Control → Control → Prop} (hsteer : F.Steered R)
    (hdefer : ∀ c ts, R c { c with pending := some ts }) : Keeps F.call deferRest :=
  .get_bind fun _ => keeps_changeControl hsteer fun c => hdefer c _

theorem keeps_runElse (hsteer : F.Steered (elseThen.steers a)) : Keeps F.call runElse :=
  keeps_control.bind fun _ => .ite _ (keeps_deferRest hsteer fun _ _ => rfl) (.pure _)

theorem keeps_runGoto (hsteer : F.Steered (goto.steers a)) : Keeps F.call runGoto :=
  (keeps_nextAs _).bind fun _ => keeps_jump hsteer (fun _ _ => rfl) _

theorem keeps_runGosub (hsteer : F.Steered (gosub.steers a)) : Keeps F.call runGosub :=
  .get_bind fun _ => (Keeps.ofExcept _).bind fun _ => .bind (keeps_changeControl hsteer fun _ => rfl)
    fun _ => (keeps_nextAs _).bind fun _ => keeps_jump hsteer (fun _ _ => rfl) _

theorem keeps_runIf (hsteer : F.Steered (ifThen.steers a)) : Keeps F.call runIf := by
  refine keeps_condition.bind fun first => .bind ?_ fun result =>
    .bind (keeps_changeControl hsteer fun _ => rfl) fun _ => (keeps_nextWordIs _).bind fun _ =>
    .ite _ (keeps_deferRest hsteer fun _ _ => rfl) (.pure _)
  exact (keeps_hasWordIs _).bind fun _ => .ite _ (.ite _ keeps_condition (.throw _)) (.pure _)

theorem keeps_runLoop (hsteer : F.Steered (loop.steers a)) : Keeps F.call runLoop := by
  refine (keeps_nextWordOf _).bind fun kind => .ite _ (keeps_condition.bind fun again => ?_)
    (.ite _ ((Keeps.map _ keeps_condition).bind fun again => ?_) ((Keeps.pure true).bind fun again => ?_))
  all_goals
    refine keeps_control.bind fun c => ?_
    cases c.doStack with
    | nil => exact .throw _
    | cons start rest =>
      exact .bind (keeps_changeControl hsteer fun _ => rfl) fun _ =>
        .ite _ (keeps_jump hsteer (fun _ _ => rfl) _) (.pure _)

theorem allows_nextNumericVar_bind {f : Text → Routine} {c : Call}
    (hf : ∀ name, c.args.numericVar? = some name → Keeps F.call (f name)) :
    F.call.allows c ((nextNumericVar >>= f).run c).2 := by
  refine Run.allows_bind (keeps_nextAs _) fun name hname => hf name ?_
  obtain ⟨m, args⟩ := c
  simp only [nextNumericVar, nextAs, nextToken, current, Run.run_bind, Run.run_get, Run.run_ofExcept] at hname
  unfold Arguments.numericVar?
  rcases hcurrent : args.current with e | t
  · simp [hcurrent] at hname
  · cases t with
    | none => simp [hcurrent] at hname
    | some t => cases t <;> simp_all [skip, changeIndex, Token.toNumericVar]

include hF

theorem allows_runFor {c : Call} (hsteer : F.Steered (forLoop.steers c.args)) :
    F.call.allows c (runFor.run c).2 := by
  refine allows_nextNumericVar_bind fun name hname => (keeps_nextSymbolIs _).bind fun _ =>
    keeps_sum.bind fun _ => (keeps_nextWordIs _).bind fun _ => keeps_sum.bind fun _ =>
    (keeps_setNumeric hF _ _).bind fun _ => keeps_changeControl hsteer fun d => ⟨fun k hk => ?_, rfl⟩
  have hother : k ≠ name := fun h => hk (h ▸ hname)
  rw [lookup_setNamed, if_neg hother]

theorem keeps_runPause : Keeps F.call runPause :=
  (keeps_nextAs _).bind fun _ => keeps_onMachine (Machine.keeps_delay hF.still _)

end Flow

section Hooked

include hF hh

theorem keeps_complain (kind t : Text) : Keeps F.call (onMachine (h.complain kind t)) :=
  keeps_onMachine ((Machine.keeps_reportError hF.still kind t).bind fun _ => hh.onBreak)

theorem keeps_runAssign : Keeps F.call (runAssign h) := by
  refine (keeps_nextAs _).bind fun name => (keeps_nextSymbolIs _).bind fun _ => keeps_sum.bind fun v =>
    keeps_hasAny.bind fun _ => .ite _ ?_ (keeps_setNumeric hF name v)
  exact (keeps_complain hF hh _ _).bind fun _ => keeps_setNumeric hF name v

theorem keeps_runBuildString : Keeps F.call (runBuildString h) := by
  refine (keeps_nextAs _).bind fun name => (keeps_nextSymbolIs _).bind fun _ => keeps_concat.bind fun t =>
    keeps_hasAny.bind fun _ => .ite _ ?_ (keeps_setString hF name t)
  exact (keeps_complain hF hh _ _).bind fun _ => keeps_setString hF name t

theorem allows_runNext {c : Call} (hsteer : F.Steered (next.steers c.args)) :
    F.call.allows c ((runNext h).run c).2 := by
  refine allows_nextNumericVar_bind fun name hname => keeps_control.bind fun d => ?_
  have hother {k : Text} (hk : c.args.numericVar? ≠ some k) : k ≠ name := fun h => hk (h ▸ hname)
  cases d.loops.lookup name with
  | none => exact keeps_complain hF hh _ _
  | some l =>
    have hset : Keeps F.call (changeControl fun d =>
        { d with loops := setNamed name l.increment d.loops }) :=
      keeps_changeControl hsteer fun d =>
        ⟨fun k hk => by rw [lookup_setNamed, if_neg (hother hk)], rfl⟩
    have herase : Keeps F.call (changeControl fun d => { d with loops := eraseNamed name d.loops }) :=
      keeps_changeControl hsteer fun d =>
        ⟨fun k hk => by rw [lookup_eraseNamed, if_neg (hother hk)], rfl⟩
    exact hset.bind fun _ => (keeps_setNumeric hF _ _).bind fun _ =>
      .ite _ herase (keeps_jump hsteer (fun _ _ => ⟨fun _ _ => rfl, rfl⟩) _)

theorem keeps_runReturn {a : Arguments} (hsteer : F.Steered (returnSub.steers a)) :
    Keeps F.call (runReturn h) := by
  refine keeps_control.bind fun c => ?_
  cases c.gosubStack with
  | nil => exact keeps_complain hF hh _ _
  | cons a rest =>
    exact .bind (keeps_changeControl hsteer fun _ => rfl) fun _ => keeps_jump hsteer (fun _ _ => rfl) a

end Hooked

section Files

include hF

theorem keeps_setResult (n : Int) : Keeps F.call (setResult n) := keeps_setNumeric hF _ n

theorem keeps_attempt {α : Type} {x : Run Call α} {code : Fault → Option Int} {done : α → Routine}
    (hx : Keeps F.call x) (hdone : ∀ a, Keeps F.call (done a)) :
    Keeps F.call (attempt x code done) := by
  refine .bind (.tryCatch (hx.bind fun _ => .pure _) fun e => ?_) fun r => ?_
  · cases code e with
    | none => exact .throw e
    | some n => exact .pure _
  · cases r with
    | ok a => exact hdone a
    | error n => exact keeps_setResult hF n

theorem keeps_runDelete : Keeps F.call runDelete :=
  keeps_attempt hF ((keeps_nextAs _).bind fun _ => keeps_onMachine (Machine.keeps_onDisk hF.still _))
    fun _ => keeps_setResult hF 0

theorem keeps_runRename : Keeps F.call runRename :=
  keeps_attempt hF ((keeps_nextAs _).bind fun _ => (keeps_nextAs _).bind fun _ =>
    keeps_onMachine (Machine.keeps_onDisk hF.still _)) fun _ => keeps_setResult hF 0

theorem keeps_runSave : Keeps F.call runSave :=
  keeps_attempt hF ((keeps_nextAs _).bind fun _ => (keeps_nextAs _).bind fun _ =>
    (keeps_nextAs _).bind fun _ => .get_bind fun _ => (Keeps.ofExcept _).bind fun _ =>
    .ite _ (keeps_setResult hF 2)
      ((keeps_onMachine (.get_bind fun _ => Machine.keeps_onDisk hF.still _)).bind fun _ =>
        keeps_setResult hF 0)) fun _ => keeps_setResult hF 0

theorem keeps_setSize (n : Nat) : Keeps F.call (setSize n) :=
  (keeps_setResult hF 0).bind fun _ => keeps_setNumeric hF _ n

theorem keeps_runSize : Keeps F.call runSize :=
  keeps_attempt hF ((keeps_nextAs _).bind fun _ => keeps_sizeOf _) (keeps_setSize hF)

end Files

section Contents

include hF

theorem keeps_runCase : Keeps F.call runCase :=
  (keeps_nextWordOf _).bind fun _ => (keeps_nextAs _).bind fun _ => (keeps_ask _).bind fun _ =>
    keeps_setString hF _ _

theorem keeps_runLength : Keeps F.call runLength :=
  (keeps_nextAs _).bind fun _ => keeps_putNumeric hF _

theorem keeps_runNumber : Keeps F.call runNumber := by
  refine (keeps_expectArguments 2).bind fun _ => (keeps_has _).bind fun _ => .ite _ ?_ ?_
  · refine (keeps_nextAs _).bind fun t => ?_
    cases Text.readInteger? t with
    | none => exact .throw _
    | some n => exact keeps_putNumeric hF n
  · exact (keeps_has _).bind fun _ =>
      .ite _ ((keeps_nextAs _).bind fun _ => keeps_putString hF _) (.pure _)

theorem keeps_runString : Keeps F.call runString :=
  (keeps_nextAs _).bind fun _ => (keeps_ask _).bind fun _ => (keeps_nextAs _).bind fun _ =>
    (keeps_nextAs _).bind fun _ => (Keeps.ofExcept _).bind fun _ => keeps_setString hF _ _

theorem keeps_runReadData {a : Arguments} (hsteer : F.Steered (readData.steers a)) :
    Keeps F.call runReadData := by
  have hblock (l : Text × Int) : Keeps F (dataBlock l.1 l.2) :=
    Machine.keeps_dataBlock (fun m blocks => hsteer m _ rfl) _ _
  exact (keeps_nextAs _).bind fun l => (keeps_onMachine (hblock l)).bind fun data =>
    (keeps_nextAs _).bind fun i =>
    .ite _ (.throw _) ((Keeps.ofExcept _).bind fun k => keeps_putNumeric hF _)

end Contents

section Hardware

include hF

theorem keeps_runGetKey : Keeps F.call runGetKey :=
  (keeps_onMachine (Machine.keeps_pollKey hF.still)).bind fun _ => keeps_putNumeric hF _

theorem keeps_runWaitKey : Keeps F.call runWaitKey :=
  (keeps_onMachine (Machine.keeps_waitKey hF.still)).bind fun _ => keeps_putNumeric hF _

theorem keeps_runSerial : Keeps F.call runSerial := by
  refine (keeps_nextWordOf _).bind fun keyword => .ite _ ?_ (.ite _ ?_ (.pure _))
  · exact (keeps_nextAs _).bind fun _ => keeps_onMachine (.modify fun _ => hF.still ⟨rfl, .refl _⟩ rfl rfl)
  · exact (keeps_nextAs _).bind fun _ => keeps_onMachine (.bind (Machine.keeps_ask _) fun _ =>
      .modify fun _ => hF.still ⟨rfl, .refl _⟩ rfl rfl)

theorem keeps_addSound (e : SpeakerEvent) : Keeps F (Machine.addSound e) :=
  .modify fun _ => hF.still ⟨rfl, .refl _⟩ rfl rfl

theorem keeps_playTone (frequency tenths : Int) : Keeps F (Machine.playTone frequency tenths) :=
  (Machine.keeps_ask _).bind fun _ => (keeps_addSound hF _).bind fun _ =>
    (Machine.keeps_delay hF.still _).bind fun _ => keeps_addSound hF _

theorem keeps_runSound : Keeps F.call runSound :=
  (keeps_nextAs _).bind fun _ => (keeps_nextAs _).bind fun _ => keeps_onMachine (keeps_playTone hF _ _)

theorem keeps_runPeek : Keeps F.call runPeek :=
  (keeps_nextAs _).bind fun _ => (keeps_nextAs _).bind fun _ => (keeps_ask _).bind fun _ =>
    keeps_setNumeric hF _ _

theorem keeps_runPeekInt : Keeps F.call runPeekInt :=
  (keeps_nextAs _).bind fun _ => (keeps_nextAs _).bind fun _ => (keeps_ask _).bind fun _ =>
    keeps_setNumeric hF _ _

theorem keeps_runRandom : Keeps F.call runRandom :=
  (keeps_nextAs _).bind fun _ => (keeps_nextAs _).bind fun _ => (keeps_nextAs _).bind fun _ =>
    (keeps_onMachine (Machine.keeps_roll hF.still _ _)).bind fun _ => keeps_setNumeric hF _ _

end Hardware

section Writers

variable (hwrite : F.Writable)
include hwrite

theorem keeps_runPoke : Keeps F.call runPoke :=
  (keeps_nextAs _).bind fun _ => (keeps_nextAs _).bind fun _ => keeps_onMachine (hwrite.byte _ _)

theorem keeps_runPokeInt : Keeps F.call runPokeInt :=
  (keeps_nextAs _).bind fun _ => (keeps_nextAs _).bind fun _ => keeps_onMachine (hwrite.word _ _)

include hF

theorem keeps_runLoad : Keeps F.call runLoad :=
  keeps_attempt hF ((keeps_nextAs _).bind fun _ => (keeps_nextAs _).bind fun _ =>
    (keeps_sizeOf _).bind fun _ => .bind (keeps_onMachine ((Machine.keeps_ask _).bind fun _ =>
      .modify fun m => hwrite.block m _ _)) fun _ => .pure _)
    (keeps_setSize hF)

include hh

theorem keeps_runInclude : Keeps F.call (runInclude h) := by
  refine (keeps_nextAs _).bind fun name => .get_bind fun c => .tryCatch (keeps_onMachine ?_) fun e =>
    .ite _ (keeps_complain hF hh _ _) (.throw e)
  exact (Machine.keeps_ask _).bind fun _ => (Machine.keeps_ask _).bind fun _ =>
    .bind (.modify fun m => hwrite.block m _ _) fun _ => .modify fun m => hwrite.size m _

end Writers

section Lines

include hF hh

/-- Every command keeps a frame that allows its way to steer, and those that write to the memory do if it
allows that. -/
theorem allows_routine (c : Command) {call : Call} (hsteer : F.Steered (c.steers call.args))
    (hc : c.writesMemory = true → F.Writable) : F.call.allows call ((c.routine h).run call).2 := by
  cases c with
  | assign => exact keeps_runAssign hF hh call
  | buildString => exact keeps_runBuildString hF hh call
  | alert => exact keeps_runAlert hF call
  | askFile => exact keeps_runAskFile hF call
  | clearScreen => exact keeps_onMachine (Machine.keeps_changeScreen hF.still fun s => .after s .clear nofun) call
  | cursorChar => exact keeps_runCursorChar hF call
  | cursorColour => exact Keeps.get_bind (fun _ => keeps_putNumeric hF _) call
  | cursor => exact keeps_runCursor hF call
  | cursorPosition => exact keeps_runCursorPosition hF call
  | files => exact Keeps.get_bind (fun _ => keeps_onMachine (keeps_printRows hF _)) call
  | ink => exact keeps_runInk hF call
  | input => exact keeps_runInput hF call
  | listBox => exact keeps_runListBox hF call
  | move => exact keeps_runMove hF call
  | print => exact keeps_runPrint hF call
  | breakPoint => exact keeps_onMachine hh.onBreak call
  | callCode => exact keeps_complain hF hh _ _ call
  | doLoop => exact keeps_runDo hsteer call
  | elseThen => exact keeps_runElse hsteer call
  | endProgram => exact keeps_onMachine hh.onExit call
  | forLoop => exact allows_runFor hF hsteer
  | gosub => exact keeps_runGosub hsteer call
  | goto => exact keeps_runGoto hsteer call
  | ifThen => exact keeps_runIf hsteer call
  | includeFile => exact keeps_runInclude hF hh (hc rfl) call
  | loop => exact keeps_runLoop hsteer call
  | next => exact allows_runNext hF hh hsteer
  | pause => exact keeps_runPause hF call
  | returnSub => exact keeps_runReturn hF hh hsteer call
  | delete => exact keeps_runDelete hF call
  | load => exact keeps_runLoad hF (hc rfl) call
  | rename => exact keeps_runRename hF call
  | save => exact keeps_runSave hF call
  | size => exact keeps_runSize hF call
  | changeCase => exact keeps_runCase hF call
  | length => exact keeps_runLength hF call
  | number => exact keeps_runNumber hF call
  | string => exact keeps_runString hF call
  | getKey => exact keeps_runGetKey hF call
  | waitKey => exact keeps_runWaitKey hF call
  | port => exact keeps_complain hF hh _ _ call
  | serial => exact keeps_runSerial hF call
  | sound => exact keeps_runSound hF call
  | peek => exact keeps_runPeek hF call
  | poke => exact keeps_runPoke (hc rfl) call
  | peekInt => exact keeps_runPeekInt hF call
  | pokeInt => exact keeps_runPokeInt (hc rfl) call
  | random => exact keeps_runRandom hF call
  | readData => exact keeps_runReadData hF hsteer call

def argumentsOf (tokens : List Token) : Arguments := ⟨tokens, 1⟩

/-- Tokens keep a frame that allows their command to steer. -/
theorem keeps_runTokens_of_steered (tokens : List Token)
    (hsteer : ∀ c ∈ commandOf? tokens, F.Steered (c.steers (argumentsOf tokens)))
    (hc : ∀ c ∈ commandOf? tokens, c.writesMemory = true → F.Writable) :
    Keeps F (runTokens h tokens) := by
  intro m
  change F.call.allows ⟨m, ⟨tokens, 0⟩⟩ ((dispatch h).run ⟨m, ⟨tokens, 0⟩⟩).2
  cases tokens with
  | nil => exact F.refl m
  | cons t ts =>
    rw [run_dispatch_cons]
    cases t with
    | numericVar name => exact keeps_runAssign hF hh _
    | stringVar name => exact keeps_runBuildString hF hh _
    | word w =>
      simp only [firstRoutine, dispatch.execute]
      split
      · next c hname =>
        have hsteer' : F.Steered (c.steers (Call.args ⟨m, argumentsOf (.word w :: ts)⟩)) := hsteer c hname
        exact allows_routine hF hh c hsteer' (hc c hname)
      · exact (keeps_changeIndex 1).bind (fun _ => .throw _) _
    | _ => exact F.refl m

theorem keeps_runLine_of_steered {line : Text}
    (hsteer : ∀ tokens, Token.parse line = .ok tokens →
      ∀ c ∈ commandOf? tokens, F.Steered (c.steers (argumentsOf tokens)))
    (hc : ∀ tokens, Token.parse line = .ok tokens →
      ∀ c ∈ commandOf? tokens, c.writesMemory = true → F.Writable) :
    Keeps F (runLine h line) := by
  refine (Machine.keeps_report hF.still _ _ _).bind fun _ => ?_
  cases hparse : Token.parse line with
  | error e => exact fun m => F.refl m
  | ok tokens =>
    exact fun m =>
      keeps_runTokens_of_steered hF hh tokens (hsteer tokens hparse) (hc tokens hparse) m

end Lines
end Command

namespace Command

variable {F : Frame Machine} (hF : F.Roomy) {h : Hooks} (hh : h.Keep F)
include hF hh

/-- Every command keeps a roomy frame, and those that write to the memory do if it allows that. -/
theorem keeps_routine (c : Command) (hc : c.writesMemory = true → F.Writable) :
    Keeps F.call (c.routine h) :=
  fun _ => allows_routine hF.calm hh c (hF.aside.steered _) hc

theorem keeps_runTokens (tokens : List Token)
    (hc : ∀ c ∈ commandOf? tokens, c.writesMemory = true → F.Writable) :
    Keeps F (runTokens h tokens) :=
  keeps_runTokens_of_steered hF.calm hh tokens (fun _ _ => hF.aside.steered _) hc

theorem keeps_runLine {line : Text}
    (hc : ∀ tokens, Token.parse line = .ok tokens →
      ∀ c ∈ commandOf? tokens, c.writesMemory = true → F.Writable) :
    Keeps F (runLine h line) :=
  keeps_runLine_of_steered hF.calm hh (fun _ _ _ _ => hF.aside.steered _) hc

end Command

/-- The frame allows what the debugger does of itself: it talks at the console, and ends itself and the
program. -/
structure Frame.Quits (F : Frame Machine) : Prop where
  aside : F.Aside
  quit : ∀ m, F.allows m { m with debugger := { m.debugger with finished := true } }
  exit : ∀ m, F.allows m { m with programFinished := true }

/-- The frame allows what the debugger does of itself but for reading what is typed. -/
structure Frame.Leaves (F : Frame Machine) : Prop where
  still : F.Still
  quit : ∀ m, F.allows m { m with debugger := { m.debugger with finished := true } }
  exit : ∀ m, F.allows m { m with programFinished := true }

theorem Frame.Quits.leaves {F : Frame Machine} (hF : F.Quits) : F.Leaves :=
  ⟨hF.aside.still, hF.quit, hF.exit⟩

/-- The frame allows what lines of any kind can do. -/
structure Frame.Open (F : Frame Machine) : Prop extends F.Quits where
  write : F.Writable

variable {F : Frame Machine}

theorem Frame.Still.calm (hF : F.Still) (hwrite : F.Writable) : F.Calm where
  still := hF
  setNumeric _ _ := (Machine.keeps_report hF _ _ _).bind fun _ => (Keeps.ofExcept _).bind fun _ =>
    hwrite.word _ _
  setString _ _ := (Keeps.ofExcept _).bind fun _ => .modify fun m => hwrite.block m _ _

theorem Frame.Open.roomy (hF : F.Open) : F.Roomy where
  aside := hF.aside
  setNumeric := (hF.aside.still.calm hF.write).setNumeric
  setString := (hF.aside.still.calm hF.write).setString

namespace Debugger

variable {prompt' : Action Unit} (hprompt : Keeps F prompt')

include hprompt in
theorem keeps_enter : Keeps F (enter prompt') :=
  .get_bind fun _ => .ite _ (.throw _) hprompt

theorem keeps_askLine (hF : F.Quits) : Keeps F askLine := by
  refine (Machine.keeps_type hF.aside.still _).bind fun _ => fun m => ?_
  cases hinput : m.console.input with
  | nil => simp [Run.run_bind, hinput, F.refl]
  | cons line rest =>
    simp only [Run.run_bind, Run.run_get, hinput, Run.run_set, Run.run_pure]
    exact hF.aside ⟨rfl, .refl _⟩

section

variable (hF : F.Leaves)
include hF

theorem keeps_dumpAll : Keeps F dumpAll := by
  have hlines {ι : Type} (f : ι → Text) (items : List ι) :
      Keeps F (items.forM fun i => Machine.typeLine (f i)) :=
    .forM (fun _ => Machine.keeps_type hF.still _) items
  have hasked {ι α : Type} (ask : ι → Machine → Except Fault α) (f : ι → α → Text) (items : List ι) :
      Keeps F (items.forM fun i => do Machine.typeLine (f i (← Machine.ask (ask i)))) :=
    .forM (fun i => (Machine.keeps_ask (ask i)).bind fun _ => Machine.keeps_type hF.still _) items
  exact (hasked _ _ _).bind fun _ => (hasked _ _ _).bind fun _ =>
    .bind (.get_bind fun _ => hlines _ _) fun _ => .get_bind fun _ => hlines _ _

include hprompt

theorem keeps_untilFinished (n : Nat) : Keeps F (untilFinished prompt' n) := by
  induction n with
  | zero => exact .pure ()
  | succ n ih =>
    exact .get_bind fun _ => .ite _ (.pure ()) ((Machine.keeps_type hF.still _).bind fun _ =>
      .bind (.modify hF.exit) fun _ => (keeps_enter hprompt).bind fun _ => ih)

theorem keep_hooksAt (n : Nat) : (hooksAt prompt' n).Keep F where
  onBreak := (Machine.keeps_type hF.still _).bind fun _ => keeps_enter hprompt
  onExit := .get_bind fun _ => .ite _ (keeps_untilFinished hprompt hF _)
    (.modify fun m => F.trans (hF.quit m) (hF.exit _))

omit hprompt in
theorem keep_hooks_of_prompt (hall : ∀ n, Keeps F (prompt n)) : hooks.Keep F where
  onBreak := .bind (.get_bind fun _ => .pure _) fun n => (keep_hooksAt (hall n) hF n).onBreak
  onExit := .bind (.get_bind fun _ => .pure _) fun n => (keep_hooksAt (hall n) hF n).onExit

end

variable (hF : F.Open)
include hF

theorem keeps_prompt (n : Nat) : Keeps F (prompt n) := by
  induction n with
  | zero => exact (keeps_askLine hF.toQuits).bind fun _ => .pure ()
  | succ n ih =>
    refine (keeps_askLine hF.toQuits).bind fun line => .ite _ (.pure ()) (.ite _ (.modify hF.quit) ?_)
    have htype (t : Text) : Keeps F (do Machine.typeLine t; prompt n) :=
      (Machine.keeps_type hF.aside.still _).bind fun _ => ih
    refine .ite _ (.get_bind fun _ => htype _) (.ite _ ?_ (.ite _ ?_ (htype _)))
    · exact (keeps_dumpAll hF.leaves).bind fun _ => ih
    · exact (Command.keeps_runLine hF.roomy (keep_hooksAt ih hF.leaves n) fun _ _ _ _ _ =>
        hF.write).bind fun _ => ih

theorem keep_hooks : hooks.Keep F := keep_hooks_of_prompt hF.leaves (keeps_prompt hF)

end Debugger

theorem Machine.keeps_runTokens (hF : F.Open) (tokens : List Token) :
    Keeps F (Machine.runTokens tokens) :=
  Command.keeps_runTokens hF.roomy (Debugger.keep_hooks hF) tokens fun _ _ _ => hF.write

theorem Machine.keeps_runLine (hF : F.Open) (line : Text) : Keeps F (Machine.runLine line) :=
  Command.keeps_runLine hF.roomy (Debugger.keep_hooks hF) fun _ _ _ _ _ => hF.write

end BasicMachine
