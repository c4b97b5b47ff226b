import BasicMachine.Proofs.MemorySize
import BasicMachine.Proofs.TurnFrame
import BasicMachine.Proofs.VariableStore

/-! What stands outside the variables. Only the commands that write to the memory at an address of their
own reach it: every other line changes the bytes of variables at most, and so never the text of the
program. A line that comes to the debugger's prompt is another matter, as lines of any kind can be typed
there. -/
namespace BasicMachine

open Run (Keeps)

/-- The address lies in the words of `A` to `Z` or in the block of a string variable. -/
def InVariables (k : Nat) : Prop :=
  (16384 ≤ k ∧ k < 16436) ∨ ∃ i < 8, 16640 + 128 * i ≤ k ∧ k < 16640 + 128 * i + 127

theorem Variable.Covers.inVariables {v : Variable} {k : Nat} (h : v.Covers k) : InVariables k := by
  obtain ⟨hfirst, hlast⟩ := h
  cases v with
  | numeric i =>
    simp only [start, length, Machine.wordStart] at hfirst hlast
    exact .inl ⟨by omega, by omega⟩
  | string i =>
    simp only [start, length, Machine.blockStart] at hfirst hlast
    exact .inr ⟨i, i.isLt, hfirst, hlast⟩

/-- The settings, and what stands in the memory outside the variables, stay as they are. -/
def Frame.outside : Frame Machine where
  allows m n := 65536 ≤ m.memory.size → n.memory.size = m.memory.size ∧ n.settings = m.settings ∧
    ∀ k, ¬InVariables k → n.memory.get k = m.memory.get k
  refl _ _ := ⟨rfl, rfl, fun _ _ => rfl⟩
  trans h h' hsize := by
    obtain ⟨hsize₁, hsettings₁, hbytes₁⟩ := h hsize
    obtain ⟨hsize₂, hsettings₂, hbytes₂⟩ := h' (hsize₁ ▸ hsize)
    exact ⟨hsize₂.trans hsize₁, hsettings₂.trans hsettings₁, fun k hk =>
      (hbytes₂ k hk).trans (hbytes₁ k hk)⟩

namespace Frame

theorem aside_outside : outside.Aside := by
  intro m n h _
  rw [h.same]
  exact ⟨rfl, rfl, fun _ _ => rfl⟩

theorem quits_outside : outside.Quits where
  aside := aside_outside
  quit _ _ := ⟨rfl, rfl, fun _ _ => rfl⟩
  exit _ _ := ⟨rfl, rfl, fun _ _ => rfl⟩

theorem outside_write (m : Machine) (c : Console) {v : Variable} {bytes : List UInt8}
    (hlength : bytes.length ≤ v.length) :
    outside.allows m { m with memory := m.memory.write v.start bytes, console := c } := by
  refine fun _ => ⟨Bank.size_write .., rfl, fun k hk => Bank.get_write_outside ?_⟩
  by_contra hinside
  exact hk (Variable.Covers.inVariables (v := v) ⟨by omega, by omega⟩)

theorem roomy_outside : outside.Roomy where
  aside := aside_outside
  setNumeric name v := by
    intro m hsize
    cases hname : numericAddress name with
    | error e =>
      obtain ⟨c, hrun⟩ := Machine.run_setNumeric_unnamed hname v m
      rw [hrun]
      exact aside_outside ⟨rfl, .refl _⟩ hsize
    | ok a =>
      obtain ⟨i, rfl⟩ := exists_wordStart hname
      obtain ⟨c, hrun⟩ := Machine.run_setNumeric (m := m) (by omega) hname v
      rw [hrun]
      exact outside_write m c (v := .numeric i) (Nat.le_refl _) hsize
  setString name t := by
    intro m hsize
    cases hname : stringAddress name with
    | error e =>
      have hrun : (Machine.setString name t).run m = (.error e, m) := by
        rw [Machine.setString, hname]
        rfl
      rw [hrun]
      exact outside.refl m hsize
    | ok a =>
      obtain ⟨i, rfl⟩ := exists_blockStart hname
      have hlast := Machine.blockStart_lt i
      have hfit : Machine.blockStart i + 127 ≤ m.memory.size := by omega
      have hwrite : m.memory.writeString (Machine.blockStart i) t stringLimit =
          m.memory.write (Machine.blockStart i) (storedBytes t) := Memory.writeString_inside hfit
      have hrun : (Machine.setString name t).run m =
          (.ok (), { m with memory := m.memory.write (Machine.blockStart i) (storedBytes t) }) := by
        rw [Machine.setString, hname, ← hwrite]
        rfl
      rw [hrun]
      exact outside_write m m.console (v := .string i) (length_storedBytes_le t) hsize

end Frame

namespace Command

/-- The command can hand the machine over to the debugger. -/
def usesHooks : Command → Bool
  | assign | buildString | breakPoint | callCode | endProgram | includeFile | next | returnSub | port =>
    true
  | _ => false

theorem routine_of_hookless {c : Command} (hc : c.usesHooks = false) (h h' : Hooks) :
    c.routine h = c.routine h' := by
  cases c <;> simp only [usesHooks, reduceCtorEq] at hc <;> rfl

/-- Tokens whose command does not use the debugger run without it. -/
theorem runTokens_of_hookless {tokens : List Token} (hc : ∀ c ∈ commandOf? tokens, c.usesHooks = false)
    (h h' : Hooks) : runTokens h tokens = runTokens h' tokens := by
  refine Run.ext fun m => ?_
  cases tokens with
  | nil => rfl
  | cons t ts =>
    have hfirst : firstRoutine h t = firstRoutine h' t := by
      cases t with
      | numericVar name => exact absurd (hc .assign rfl) (by decide)
      | stringVar name => exact absurd (hc .buildString rfl) (by decide)
      | word w =>
        simp only [firstRoutine, dispatch.execute]
        split
        · next c hname => rw [routine_of_hookless (hc c hname) h h']
        · rfl
      | _ => rfl
    have hdispatch : (dispatch h).run ⟨m, ⟨t :: ts, 0⟩⟩ = (dispatch h').run ⟨m, ⟨t :: ts, 0⟩⟩ := by
      rw [run_dispatch_cons, run_dispatch_cons, hfirst]
    exact (run_withArguments hdispatch).trans (run_withArguments rfl).symm

end Command

namespace Machine

/-- The line does not come to the debugger's prompt: whatever happens there, the outcome is the same. -/
def PromptFree (line : Text) (m : Machine) : Prop :=
  ∀ prompt lines,
    (Command.runLine (Debugger.hooksAt prompt lines) line).run m = (runLine line).run m

theorem PromptFree.allows {F : Frame Machine} (hroomy : F.Roomy) (hquits : F.Quits) {line : Text}
    {m : Machine} (h : PromptFree line m)
    (hc : ∀ tokens, Token.parse line = .ok tokens →
      ∀ c ∈ Command.commandOf? tokens, c.writesMemory = true → F.Writable) :
    F.allows m ((runLine line).run m).2 := by
  rw [← h (pure ()) 0]
  exact Command.keeps_runLine hroomy (Debugger.keep_hooksAt (.pure ()) hquits.leaves 0) hc m

/-- A line whose command does not use the debugger does not come to its prompt. -/
theorem promptFree_of_hookless {line : Text} {tokens : List Token}
    (hparse : Token.parse line = .ok tokens)
    (hc : ∀ c ∈ Command.commandOf? tokens, c.usesHooks = false) (m : Machine) : PromptFree line m := by
  intro prompt lines
  rw [runLine, Command.runLine, Command.runLine, hparse, Run.run_bind, Run.run_bind]
  split
  · exact congrArg (Run.run · _) (Command.runTokens_of_hookless hc _ _)
  · rfl

end Machine

namespace Frame

/-- The memory does not get shorter. -/
def growing : Frame Machine where
  allows m n := m.memory.size ≤ n.memory.size
  refl _ := Nat.le_refl _
  trans := Nat.le_trans

theorem turning_growing : growing.Turning where
  aside := by
    intro m n h
    rw [h.same]
    exact Nat.le_refl _
  quit _ := Nat.le_refl _
  exit _ := Nat.le_refl _
  write :=
    { byte := fun a v m => Nat.le_of_eq (Memory.size_writeByte m.memory a v).symm
      block := fun m a bytes => Memory.size_le_writeData m.memory a bytes
      size := fun _ _ => Nat.le_refl _ }
  course _ _ _ _ := Nat.le_refl _

end Frame

namespace Machine

/-- The machines that come about when lines are run and turns are taken, from a blank memory on. What
happens to the machine from outside leaves the memory alone. -/
inductive Reachable : Machine → Prop
  | blank {m : Machine} (h : m.memory = Memory.fresh) : Reachable m
  | line {m : Machine} (h : Reachable m) (line : Text) : Reachable ((runLine line).run m).2
  | turn {m : Machine} (h : Reachable m) : Reachable (turn.run m).2
  | outside {m n : Machine} (h : Reachable m) (hmemory : n.memory = m.memory) : Reachable n

theorem Reachable.size {m : Machine} (h : Reachable m) : 65536 ≤ m.memory.size := by
  induction h with
  | blank hfresh => exact Nat.le_of_eq (congrArg Bank.size hfresh.symm)
  | line _ line ih => exact Nat.le_trans ih (keeps_runLine Frame.turning_growing.toOpen line _)
  | turn _ ih => exact Nat.le_trans ih (Frame.turning_growing.turn _)
  | outside _ hmemory ih => rwa [hmemory]

def programBytes (m : Machine) : List UInt8 :=
  m.memory.slice programStart.toNat m.programSize.toNat

/-- The memory has its size, and outside the variables its bytes; so has the program. -/
structure SameOutside (m n : Machine) : Prop where
  size : n.memory.size = m.memory.size
  bytes : ∀ k, ¬InVariables k → n.memory.get k = m.memory.get k
  program : n.programBytes = m.programBytes

theorem sameOutside_of_allows {m n : Machine} (hsize : 65536 ≤ m.memory.size)
    (h : Frame.outside.allows m n) : SameOutside m n := by
  obtain ⟨hsize', hsettings, hbytes⟩ := h hsize
  refine ⟨hsize', hbytes, ?_⟩
  have hprogram : n.programSize = m.programSize := by rw [programSize, programSize, setting, setting, hsettings]
  rw [programBytes, programBytes, hprogram]
  apply Bank.slice_congr
  intro k hfirst _
  apply hbytes
  rintro (hword | ⟨i, hi, hblock⟩)
  · have hstart : programStart.toNat = 32768 := rfl
    omega
  · have hstart : programStart.toNat = 32768 := rfl
    omega

/-- Whether a line succeeds or fails, it leaves everything outside the variables as it is, unless its
command is one of the four that write to the memory or it comes to the debugger's prompt. -/
theorem runLine_sameOutside (m : Machine) (line : Text) (hm : Reachable m)
    (hcommand : ∀ tokens, Token.parse line = .ok tokens →
      ∀ c ∈ Command.commandOf? tokens, c ∉ [.poke, .pokeInt, .load, .includeFile])
    (hfree : PromptFree line m) : SameOutside m ((runLine line).run m).2 := by
  apply sameOutside_of_allows hm.size
  apply hfree.allows Frame.roomy_outside Frame.quits_outside
  intro tokens hparse c hc hwrites
  have hother := hcommand tokens hparse c hc
  cases c <;> simp [Command.writesMemory] at hwrites hother

/-- `CURSPOS A 5` stores the column and then fails, as 5 is no variable. -/
theorem runLine_sameOutside_failing :
    Reachable {} ∧ Token.parse "CURSPOS A 5".toList =
        .ok [.word "CURSPOS".toList, .numericVar ['A'], .number 5] ∧
      PromptFree "CURSPOS A 5".toList {} ∧
      ((runLine "CURSPOS A 5".toList).run {}).1 = .error (.unexpectedToken .numericVariable) ∧
      SameOutside {} ((runLine "CURSPOS A 5".toList).run {}).2 := by
  have hparse : Token.parse "CURSPOS A 5".toList =
      .ok [.word "CURSPOS".toList, .numericVar ['A'], .number 5] := by decide +kernel
  have hname : Command.commandOf? [.word "CURSPOS".toList, .numericVar ['A'], .number 5] =
      some .cursorPosition := by decide +kernel
  have hfree : PromptFree "CURSPOS A 5".toList {} := by
    apply promptFree_of_hookless hparse
    rw [hname]
    decide
  refine ⟨.blank rfl, hparse, hfree, by decide +kernel, ?_⟩
  refine runLine_sameOutside {} _ (.blank rfl) ?_ hfree
  rw [hparse]
  rintro tokens ⟨⟩
  rw [hname]
  decide

end Machine
end BasicMachine
