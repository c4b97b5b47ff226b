import BasicMachine.Proofs.Argument
import BasicMachine.Proofs.MemoryBlock
import BasicMachine.Proofs.Simulation
import BasicMachine.Proofs.StringStore

/-! Lines that neither jump nor talk to the debugger: blank lines, comments, labels and assignments. What
they store hangs on the memory, the settings and the clock alone, and they change nothing but the
variables and the console. So they have the same effect in every machine that agrees in these, and leave a
program above the variables as it is. -/
namespace BasicMachine

open Run (Simulates)

/-- The machines agree in all that an assignment can see. -/
structure SameView (m n : Machine) : Prop where
  memory : n.memory = m.memory
  settings : n.settings = m.settings
  clock : n.clock = m.clock

namespace SameView

variable {m n : Machine}

theorem string (h : SameView m n) (name : Text) : n.string name = m.string name := by
  simp only [Machine.string, h.memory]

theorem numeric (h : SameView m n) (name : Text) : n.numeric name = m.numeric name := by
  simp only [Machine.numeric, h.memory]

theorem keyword (h : SameView m n) (k : Keyword) : k.value n = k.value m := by
  cases k <;> simp only [Keyword.value, Machine.setting, h.settings, h.clock]

theorem toNumeric (h : SameView m n) (t : Token) : t.toNumeric n = t.toNumeric m := by
  cases t <;> simp only [Token.toNumeric, h.numeric, h.keyword]

theorem toString (h : SameView m n) (t : Token) : t.toString n = t.toString m := by
  cases t <;> simp only [Token.toString, h.string]

end SameView

/-- Calls with the same arguments on related machines. -/
structure SameCall (R : Machine → Machine → Prop) (c d : Call) : Prop where
  args : d.args = c.args
  machine : R c.machine d.machine

namespace Call

variable {R : Machine → Machine → Prop} {α : Type}

theorem simulates_onMachine {x y : Action α} (h : Simulates R x y) :
    Simulates (SameCall R) (onMachine x) (onMachine y) := by
  intro c d hcall a c' hrun
  simp only [onMachine, Run.run_onPart, Prod.mk.injEq] at hrun
  obtain ⟨hok, rfl⟩ := hrun
  obtain ⟨n, hn, hR⟩ := h c.machine d.machine hcall.machine a _ (Prod.ext hok rfl)
  exact ⟨{ d with machine := n }, by simp [onMachine, hn], ⟨hcall.args, hR⟩⟩

theorem simulates_args (f : Arguments → Run Call α)
    (h : ∀ a, Simulates (SameCall R) (f a) (f a)) :
    Simulates (SameCall R) (do f (← get).args) (do f (← get).args) :=
  .get_bind fun _ _ hcall => hcall.args ▸ h _

theorem simulates_look : Simulates (SameCall R) look look :=
  simulates_args (fun a => Run.ofExcept a.current) fun _ => .ofExcept _

theorem simulates_has (p : Token → Bool) : Simulates (SameCall R) (has p) (has p) :=
  simulates_look.bind fun _ => .pure _

theorem simulates_hasAny : Simulates (SameCall R) hasAny hasAny :=
  simulates_args (fun a => pure a.hasMore) fun _ => .pure _

theorem simulates_argumentsLeft : Simulates (SameCall R) argumentsLeft argumentsLeft :=
  simulates_args (fun a => pure (a.tokens.length - a.index).toNat) fun _ => .pure _

theorem simulates_current : Simulates (SameCall R) current current := by
  refine .get_bind fun c d hcall => ?_
  rw [hcall.args]
  refine (Simulates.ofExcept _).bind fun t => ?_
  cases t with
  | none => exact .throw _
  | some t => exact .pure _

theorem simulates_skip : Simulates (SameCall R) skip skip :=
  .modify fun _ _ hcall => ⟨by rw [hcall.args], hcall.machine⟩

theorem simulates_nextToken : Simulates (SameCall R) nextToken nextToken :=
  simulates_current.bind fun _ => simulates_skip.bind fun _ => .pure _

theorem simulates_nextAs {read : Machine → Token → Except Fault α}
    (h : ∀ m n t, R m n → read n t = read m t) :
    Simulates (SameCall R) (nextAs read) (nextAs read) :=
  simulates_nextToken.bind fun t => .get_bind fun c d hcall =>
    h c.machine d.machine t hcall.machine ▸ .ofExcept _

theorem simulates_nextSymbolIs (wanted : Text) :
    Simulates (SameCall R) (nextSymbolIs wanted) (nextSymbolIs wanted) :=
  (simulates_nextAs fun _ _ _ _ => rfl).bind fun _ => .ite _ (.pure _) (.throw _)

theorem simulates_nextSymbolOf (wanted : List Text) :
    Simulates (SameCall R) (nextSymbolOf wanted) (nextSymbolOf wanted) :=
  (simulates_nextAs fun _ _ _ _ => rfl).bind fun _ => .ite _ (.pure _) (.throw _)

variable (hR : ∀ m n, R m n → SameView m n)
include hR

theorem simulates_nextNumeric : Simulates (SameCall R) nextNumeric nextNumeric :=
  simulates_nextAs fun m n t h => (hR m n h).toNumeric t

theorem simulates_nextString : Simulates (SameCall R) nextString nextString :=
  simulates_nextAs fun m n t h => (hR m n h).toString t

theorem simulates_sumFrom (a : Int) (n : Nat) :
    Simulates (SameCall R) (sumFrom a n) (sumFrom a n) := by
  induction n generalizing a with
  | zero => exact .pure a
  | succ n ih =>
    refine (simulates_has _).bind fun _ => .ite _ ?_ (.pure _)
    exact (simulates_nextSymbolOf _).bind fun _ => (simulates_nextNumeric hR).bind fun _ =>
      (Simulates.ofExcept _).bind fun v => ih v

theorem simulates_sum : Simulates (SameCall R) sum sum :=
  (simulates_nextNumeric hR).bind fun a => simulates_argumentsLeft.bind fun n =>
    simulates_sumFrom hR a n

theorem simulates_concatFrom (t : Text) (n : Nat) :
    Simulates (SameCall R) (concatFrom t n) (concatFrom t n) := by
  induction n generalizing t with
  | zero => exact .pure t
  | succ n ih =>
    refine (simulates_has _).bind fun _ => .ite _ ?_ (.pure _)
    exact (simulates_nextSymbolIs _).bind fun _ => (simulates_nextString hR).bind fun _ => ih _

theorem simulates_concat : Simulates (SameCall R) concat concat :=
  (simulates_nextString hR).bind fun t => simulates_argumentsLeft.bind fun n =>
    simulates_concatFrom hR t n

end Call

namespace Memory

/-- The step changes no byte of a program and moves none. -/
def KeepsProgram (x : Run Memory Unit) : Prop :=
  ∀ m, (x.run m).2.size = m.size ∧ ∀ k, 32768 ≤ k → (x.run m).2.get k = m.get k

theorem KeepsProgram.bind {x : Run Memory Unit} {f : Unit → Run Memory Unit} (hx : KeepsProgram x)
    (hf : KeepsProgram (f ())) : KeepsProgram (x >>= f) := by
  intro m
  rcases hrun : x.run m with ⟨r, m'⟩
  have hfirst := hx m
  rw [hrun] at hfirst
  cases r with
  | error e => rwa [Run.run_bind_error hrun]
  | ok u =>
    rw [Run.run_bind_ok hrun]
    have hsecond := hf m'
    exact ⟨hsecond.1.trans hfirst.1, fun k hk => (hsecond.2 k hk).trans (hfirst.2 k hk)⟩

theorem keepsProgram_writeByte {a : Int} (h0 : 0 ≤ a) (ha : a < 32768) (v : Int) :
    KeepsProgram (writeByte a v) := by
  intro m
  cases haddress : m.address a with
  | error e =>
    rw [run_writeByte_error haddress]
    exact ⟨rfl, fun _ _ => rfl⟩
  | ok i =>
    have hi : i < 32768 := by
      simp only [address, place] at haddress
      grind
    rw [run_writeByte_ok haddress]
    exact ⟨Bank.size_set .., fun k hk => by rw [Bank.get_set, if_neg (by omega)]⟩

theorem keepsProgram_writeWord {a : Int} (h0 : 0 ≤ a) (ha : a < 32767) (v : Int) :
    KeepsProgram (writeWord a v) :=
  (keepsProgram_writeByte h0 (by omega) v).bind
    (keepsProgram_writeByte (by omega) (by omega) (v / 256))

end Memory

/-- The address of the low byte of a numeric variable. -/
def Machine.wordStart (i : Fin 26) : Nat := 16384 + 2 * i

theorem Machine.wordStart_le (i : Fin 26) : wordStart i ≤ 16434 := by
  unfold wordStart
  omega

theorem Machine.wordStart_lt_limit (i : Fin 26) : (wordStart i : Int) + 1 < indexLimit := by
  have hle := wordStart_le i
  unfold indexLimit
  omega

theorem exists_wordStart {name : Text} {a : Int} (h : numericAddress name = .ok a) :
    ∃ i, a = (Machine.wordStart i : Int) := by
  unfold numericAddress at h
  split at h
  · next c =>
    simp only [numericStart] at h
    split at h
    · cases h
    · next hrange =>
      simp only [Except.ok.injEq] at h
      refine ⟨⟨((c.toNat : Int) - 'A'.toNat).toNat, by omega⟩, ?_⟩
      simp only [Machine.wordStart]
      omega
  · cases h

theorem exists_blockStart {name : Text} {a : Int} (h : stringAddress name = .ok a) :
    ∃ i, a = (Machine.blockStart i : Int) := by
  unfold stringAddress at h
  split at h
  · cases h
  · split at h
    · cases h
    · split at h
      · cases h
      · split at h
        · cases h
        · next n _ =>
          split at h
          · cases h
          · next hrange =>
            simp only [Except.ok.injEq, stringStart, stringLimit] at h
            refine ⟨⟨(n - 1).toNat, by omega⟩, ?_⟩
            simp only [Machine.blockStart]
            omega

/-- `n` has come from `start` as `m` has from another machine: what assignments see is the same in both,
and `n` differs from `start` in the console and the variables alone. -/
structure RunsAlong (start m n : Machine) : Prop extends SameView m n where
  frame : n = { start with memory := n.memory, console := n.console }
  size : n.memory.size = 65536
  program : ∀ k, 32768 ≤ k → n.memory.get k = start.memory.get k

namespace RunsAlong

variable {start m n : Machine}

theorem console (h : RunsAlong start m n) (c d : Console) :
    RunsAlong start { m with console := c } { n with console := d } where
  memory := h.memory
  settings := h.settings
  clock := h.clock
  frame := by rw [h.frame]
  size := h.size
  program := h.program

theorem store (h : RunsAlong start m n) {memory : Memory} (hsize : memory.size = 65536)
    (hprogram : ∀ k, 32768 ≤ k → memory.get k = n.memory.get k) :
    RunsAlong start { m with memory := memory } { n with memory := memory } where
  memory := rfl
  settings := h.settings
  clock := h.clock
  frame := by rw [h.frame]
  size := hsize
  program k hk := (hprogram k hk).trans (h.program k hk)

end RunsAlong

namespace Machine

variable {start : Machine}

theorem simulates_of_console {x : Action Unit}
    (h : ∀ m, ∃ c, x.run m = (.ok (), { m with console := c })) :
    Simulates (RunsAlong start) x x := by
  intro m n hmn a m' hrun
  obtain ⟨c, hm⟩ := h m
  obtain ⟨d, hn⟩ := h n
  rw [hm, Prod.mk.injEq] at hrun
  obtain ⟨-, rfl⟩ := hrun
  exact ⟨_, hn, hmn.console c d⟩

theorem run_report (level : LogLevel) (kind t : Text) (m : Machine) :
    ∃ c, (report level kind t).run m = (.ok (), { m with console := c }) := by
  simp only [report, record, typeLine, type, Run.run_bind, Run.run_get]
  split
  · split <;> exact ⟨_, rfl⟩
  · split <;> exact ⟨_, rfl⟩

theorem simulates_report (level : LogLevel) (kind t : Text) :
    Simulates (RunsAlong start) (report level kind t) (report level kind t) :=
  simulates_of_console (run_report level kind t)

theorem simulates_onMemory {x : Run Memory Unit} (hx : Memory.KeepsProgram x) :
    Simulates (RunsAlong start) (onMemory x) (onMemory x) := by
  intro m n hmn a m' hrun
  simp only [onMemory, Run.run_onPart, Prod.mk.injEq] at hrun ⊢
  obtain ⟨hok, rfl⟩ := hrun
  have hkeeps := hx n.memory
  rw [hmn.memory] at hkeeps ⊢
  refine ⟨_, ⟨hok, rfl⟩, hmn.store ?_ ?_⟩
  · rw [hkeeps.1, ← hmn.memory, hmn.size]
  · rw [hmn.memory]
    exact hkeeps.2

theorem simulates_setNumeric (name : Text) (v : Int) :
    Simulates (RunsAlong start) (setNumeric name v) (setNumeric name v) := by
  refine (simulates_report _ _ _).bind fun _ => .ofExcept_bind fun a ha => ?_
  obtain ⟨i, rfl⟩ := exists_wordStart ha
  have hle := wordStart_le i
  have hbelow : (wordStart i : Int) < 32767 := by omega
  exact simulates_onMemory (Memory.keepsProgram_writeWord (Int.natCast_nonneg _) hbelow _)

theorem simulates_setString (name t : Text) :
    Simulates (RunsAlong start) (setString name t) (setString name t) := by
  refine .ofExcept_bind fun a ha => .modify fun m n hmn => ?_
  obtain ⟨i, rfl⟩ := exists_blockStart ha
  have hbelow := blockStart_lt i
  have hlength := length_storedBytes_le t
  have hfit : blockStart i + 127 ≤ n.memory.size := by
    rw [hmn.size]
    omega
  have hstore : n.memory.writeString (blockStart i) t stringLimit =
      n.memory.write (blockStart i) (storedBytes t) := Memory.writeString_inside hfit
  rw [← hmn.memory, hstore]
  refine hmn.store ?_ fun k hk => ?_
  · rw [Bank.size_write, hmn.size]
  · exact Bank.get_write_outside (by omega)

end Machine

/-- Whatever hands the machine over to the debugger fails. -/
def Hooks.failing : Hooks := ⟨throw .noInterpreter, throw .noInterpreter⟩

theorem Hooks.simulates_complain {R : Machine → Machine → Prop} (kind t : Text) (y : Action Unit) :
    Simulates R (failing.complain kind t) y :=
  .of_failing y fun _ => ⟨.noInterpreter, rfl⟩

namespace Token

/-- The tokens do nothing or begin an assignment. -/
def beginsPlain : List Token → Bool
  | [] => true
  | t :: _ => t.isSilent || t.isNumericVar || t.isStringVar

end Token

namespace Command

open Call

variable {start : Machine}

theorem simulates_runAssign (h : Hooks) :
    Simulates (SameCall (RunsAlong start)) (runAssign Hooks.failing) (runAssign h) := by
  refine (simulates_nextAs fun _ _ _ _ => rfl).bind fun name => ?_
  refine (simulates_nextSymbolIs _).bind fun _ => ?_
  refine (simulates_sum fun _ _ hmn => hmn.toSameView).bind fun v => ?_
  have hset := simulates_onMachine (@Machine.simulates_setNumeric start name v)
  refine simulates_hasAny.bind fun more => .ite _ ?_ hset
  exact (simulates_onMachine (Hooks.simulates_complain _ _ _)).bind fun _ => hset

theorem simulates_runBuildString (h : Hooks) :
    Simulates (SameCall (RunsAlong start)) (runBuildString Hooks.failing) (runBuildString h) := by
  refine (simulates_nextAs fun _ _ _ _ => rfl).bind fun name => ?_
  refine (simulates_nextSymbolIs _).bind fun _ => ?_
  refine (simulates_concat fun _ _ hmn => hmn.toSameView).bind fun t => ?_
  have hset := simulates_onMachine (@Machine.simulates_setString start name t)
  refine simulates_hasAny.bind fun more => .ite _ ?_ hset
  exact (simulates_onMachine (Hooks.simulates_complain _ _ _)).bind fun _ => hset

/-- What tokens run that do nothing or begin an assignment. -/
def plainRoutine (h : Hooks) : List Token → Routine
  | .numericVar _ :: _ => runAssign h
  | .stringVar _ :: _ => runBuildString h
  | _ => pure ()

theorem run_dispatch_plain (h : Hooks) {tokens : List Token} (hplain : Token.beginsPlain tokens = true)
    (m : Machine) :
    (dispatch h).run ⟨m, ⟨tokens, 0⟩⟩ = (plainRoutine h tokens).run ⟨m, ⟨tokens, 0⟩⟩ := by
  cases tokens with
  | nil => rfl
  | cons t rest =>
    rw [run_dispatch_cons]
    cases t with
    | numericVar | stringVar | comment | label => rfl
    | _ => cases hplain

theorem simulates_runTokens (h : Hooks) {tokens : List Token}
    (hplain : Token.beginsPlain tokens = true) :
    Simulates (RunsAlong start) (runTokens Hooks.failing tokens) (runTokens h tokens) := by
  have hroutine : Simulates (SameCall (RunsAlong start)) (plainRoutine Hooks.failing tokens)
      (plainRoutine h tokens) := by
    unfold plainRoutine
    split
    · exact simulates_runAssign h
    · exact simulates_runBuildString h
    · exact .pure ()
  intro m n hmn a m' hrun
  rcases hleft : (plainRoutine Hooks.failing tokens).run ⟨m, ⟨tokens, 0⟩⟩ with ⟨r, c⟩
  rw [runTokens, run_withArguments ((run_dispatch_plain _ hplain m).trans hleft),
    Prod.mk.injEq] at hrun
  obtain ⟨rfl, rfl⟩ := hrun
  obtain ⟨d, hright, hcall⟩ := hroutine ⟨m, ⟨tokens, 0⟩⟩ ⟨n, ⟨tokens, 0⟩⟩ ⟨rfl, hmn⟩ a c hleft
  exact ⟨d.machine, run_withArguments ((run_dispatch_plain _ hplain n).trans hright), hcall.machine⟩

/-- The line is blank, a comment, a label or an assignment. -/
def isPlainLine (line : Text) : Bool :=
  match Token.parse line with
  | .ok tokens => Token.beginsPlain tokens
  | .error _ => false

/-- A plain line that needs no debugger runs the same way with any. -/
theorem simulates_runLine (h : Hooks) {line : Text} (hplain : isPlainLine line = true) :
    Simulates (RunsAlong start) (runLine Hooks.failing line) (runLine h line) := by
  refine (Machine.simulates_report _ _ _).bind fun _ => .ofExcept_bind fun tokens hparse => ?_
  rw [isPlainLine, hparse] at hplain
  exact simulates_runTokens h hplain

end Command
end BasicMachine
