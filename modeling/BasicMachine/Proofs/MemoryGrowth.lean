import BasicMachine.Proofs.OutsideVariables

/-! How lines make the memory longer. A line that loads a file stores it as a block, wherever the block may
end; no other line changes the size of the memory. So the memory stays as long as it is just when every
block that is loaded lies in it. -/
namespace BasicMachine

open Run (Keeps)

namespace Memory

/-- The memory with a block stored, if there is one. -/
def storing (m : Memory) : Option (Int × List UInt8) → Memory
  | some (a, bytes) => m.writeData a bytes
  | none => m

theorem size_le_storing (m : Memory) (b : Option (Int × List UInt8)) : m.size ≤ (m.storing b).size := by
  cases b with
  | none => exact Nat.le_refl _
  | some b => exact size_le_writeData m b.1 b.2

end Memory

/-- The bytes of a file whose size can be told. -/
def Disk.fileOf (d : Disk) (name : Text) : Except Fault (List UInt8) := do
  let _ ← d.size name
  d.load name

theorem Call.run_nextAs_end {α : Type} (read : Machine → Token → Except Fault α) {m : Machine}
    {ts : List Token} {k : Int} (h : ts.length ≤ k) :
    (nextAs read).run ⟨m, ⟨ts, k⟩⟩ = (.error .notEnoughArguments, ⟨m, ⟨ts, k⟩⟩) := by
  have hmore : ¬k < ts.length := by omega
  simp [nextAs, nextToken, current, Run.run_bind, Arguments.current, Arguments.hasMore, hmore]

/-- The size of the memory stays as it is. -/
def Frame.sized : Frame Machine where
  allows m n := 65536 ≤ m.memory.size → n.memory.size = m.memory.size
  refl _ _ := rfl
  trans h h' hsize := (h' (h hsize ▸ hsize)).trans (h hsize)

namespace Frame

theorem sized_of_outside {m n : Machine} (h : outside.allows m n) : sized.allows m n :=
  fun hsize => (h hsize).1

theorem quits_sized : sized.Quits where
  aside _ _ h := sized_of_outside (aside_outside h)
  quit _ _ := rfl
  exit _ _ := rfl

theorem roomy_sized : sized.Roomy where
  aside := quits_sized.aside
  setNumeric name v m := sized_of_outside (roomy_outside.setNumeric name v m)
  setString name t m := sized_of_outside (roomy_outside.setString name t m)

end Frame

namespace Command

open Call

theorem keeps_sized_onMemory {x : Run Memory Unit} (h : ∀ m, (x.run m).2.size = m.size) :
    Keeps Frame.sized (Machine.onMemory x) := fun m _ => h m.memory

/-- Every command but the two that load files keeps the size. -/
theorem keeps_sized_routine {h : Hooks} (hh : h.Keep Frame.sized) {c : Command} (hload : c ≠ load)
    (hinclude : c ≠ includeFile) : Keeps Frame.sized.call (c.routine h) := by
  by_cases hpoke : c = poke
  · subst hpoke
    exact (keeps_nextAs _).bind fun v => (keeps_nextAs _).bind fun a =>
      keeps_onMachine (keeps_sized_onMemory fun m => Memory.size_writeByte m a v)
  by_cases hpokeInt : c = pokeInt
  · subst hpokeInt
    exact (keeps_nextAs _).bind fun v => (keeps_nextAs _).bind fun a =>
      keeps_onMachine (keeps_sized_onMemory fun m => Memory.size_writeWord m a v)
  apply keeps_routine Frame.roomy_sized hh
  intro hwrites
  cases c <;> simp_all [writesMemory]

/-- The block that `LOAD` stores: a file, at the address behind its name. -/
def loadBlock (m : Machine) : List Token → Except Fault (Int × List UInt8)
  | t :: u :: _ => do
    let name ← t.toString m
    let a ← u.toNumeric m
    return (a, ← m.disk.fileOf name)
  | _ => throw .notEnoughArguments

theorem run_loadFile (m : Machine) (w : Text) (args : List Token) :
    (loadFile.run ⟨m, ⟨.word w :: args, 1⟩⟩).2.machine =
      { m with memory := m.memory.storing (loadBlock m args).toOption } := by
  rw [loadFile, nextString, nextNumeric]
  cases args with
  | nil =>
    rw [Run.run_bind_error (run_nextAs_end _ (by simp))]
    rfl
  | cons t args =>
    have hfirst : Arguments.Has (.word w :: t :: args) 1 t := ⟨by decide, by decide, rfl⟩
    rw [Run.run_bind, run_nextAs _ hfirst]
    cases args with
    | nil =>
      cases t.toString m with
      | error e => rfl
      | ok name =>
        dsimp only
        rw [Run.run_bind_error (run_nextAs_end _ (by simp))]
        rfl
    | cons u args =>
      have hsecond : Arguments.Has (.word w :: t :: u :: args) 2 u := ⟨by decide, by decide, rfl⟩
      cases hname : t.toString m with
      | error e =>
        rw [loadBlock, hname]
        rfl
      | ok name =>
        simp only [Int.reduceAdd]
        rw [Run.run_bind, run_nextAs _ hsecond]
        cases ha : u.toNumeric m with
        | error e =>
          rw [loadBlock, hname, ha]
          rfl
        | ok a =>
          have hblock : loadBlock m (t :: u :: args) = do return (a, ← m.disk.fileOf name) := by
            rw [loadBlock, hname, ha]
            rfl
          rw [hblock, Disk.fileOf]
          simp only [sizeOf, Run.run_bind, Run.run_get, Run.run_ofExcept, run_liftM,
            Machine.run_loadFile]
          cases m.disk.size name with
          | error e => rfl
          | ok n =>
            dsimp only
            cases m.disk.load name with
            | error e => rfl
            | ok bytes => rfl

theorem allows_attempt {F : Frame Machine} (hF : F.Calm) {α : Type} (x : Run Call α)
    (code : Fault → Option Int) {done : α → Routine} (hdone : ∀ a, Keeps F.call (done a)) (c : Call) :
    F.call.allows (x.run c).2 ((attempt x code done).run c).2 := by
  rw [run_attempt]
  rcases x.run c with ⟨r, c'⟩
  cases r with
  | ok a => exact hdone a c'
  | error e =>
    dsimp only
    cases code e with
    | none => exact F.call.refl c'
    | some n => exact keeps_setResult hF n c'

theorem size_runLoad {m : Machine} (hsize : 65536 ≤ m.memory.size) (w : Text) (args : List Token) :
    (runLoad.run ⟨m, ⟨.word w :: args, 1⟩⟩).2.machine.memory.size =
      (m.memory.storing (loadBlock m args).toOption).size := by
  have hrest := allows_attempt Frame.roomy_sized.calm loadFile refused (keeps_setSize Frame.roomy_sized.calm)
    ⟨m, ⟨.word w :: args, 1⟩⟩
  have hgrown := Memory.size_le_storing m.memory (loadBlock m args).toOption
  change _ → _ at hrest
  rw [run_loadFile] at hrest
  exact hrest (Nat.le_trans hsize hgrown)

/-- The block that `INCLUDE` stores: a file, behind the program. -/
def includeBlock (m : Machine) : List Token → Except Fault (Int × List UInt8)
  | t :: _ => do
    let name ← t.toString m
    return (programStart + m.programSize, ← m.disk.fileOf name)
  | [] => throw .notEnoughArguments

theorem run_includeFileAt_fileOf (m : Machine) (name : Text) (size : Int) :
    ∃ settings, (includeFileAt name size).run m = match m.disk.fileOf name with
      | .ok bytes =>
        (.ok (), { m with memory := m.memory.writeData (programStart + size) bytes, settings })
      | .error e => (.error e, m) := by
  simp only [includeFileAt, Run.run_bind, Machine.run_ask, Disk.fileOf]
  cases m.disk.size name with
  | error e => exact ⟨m.settings, rfl⟩
  | ok n =>
    dsimp only
    cases m.disk.load name with
    | error e => exact ⟨m.settings, rfl⟩
    | ok bytes => exact ⟨_, rfl⟩

theorem size_runInclude {m : Machine} (hsize : 65536 ≤ m.memory.size) {h : Hooks}
    (hh : h.Keep Frame.sized) (w : Text) (args : List Token) :
    ((runInclude h).run ⟨m, ⟨.word w :: args, 1⟩⟩).2.machine.memory.size =
      (m.memory.storing (includeBlock m args).toOption).size := by
  rw [runInclude, nextString]
  cases args with
  | nil =>
    rw [Run.run_bind_error (run_nextAs_end _ (by simp))]
    rfl
  | cons t args =>
    have hfirst : Arguments.Has (.word w :: t :: args) 1 t := ⟨by decide, by decide, rfl⟩
    rw [Run.run_bind, run_nextAs _ hfirst, includeBlock]
    cases t.toString m with
    | error e => rfl
    | ok name =>
      obtain ⟨settings, hrun⟩ := run_includeFileAt_fileOf m name m.programSize
      simp only [Run.run_bind, Run.run_get, Run.run_tryCatch, onMachine, Run.run_onPart, hrun]
      cases hfile : m.disk.fileOf name with
      | ok bytes =>
        simp only [bind, Except.bind, hfile]
        rfl
      | error e =>
        have hfault : Keeps Frame.sized.call (if e.isMissingFile then
            onMachine (h.complain "FILE".toList ("File not found: ".toList ++ name)) else throw e) :=
          .ite _ (keeps_complain Frame.roomy_sized.calm hh _ _) (.throw e)
        simp only [bind, Except.bind, hfile]
        exact hfault ⟨m, _⟩ hsize

/-- The block that a command stores. -/
def blockOf (m : Machine) (args : List Token) (c : Command) : Option (Int × List UInt8) :=
  if c = load then (loadBlock m args).toOption
  else if c = includeFile then (includeBlock m args).toOption
  else none

/-- The block that tokens store. -/
def tokenBlock (m : Machine) : List Token → Option (Int × List UInt8)
  | .word w :: args => (ofName? (upper w)).bind (blockOf m args)
  | _ => none

/-- After tokens were run the memory is as long as with their block stored. -/
theorem size_runTokens {m : Machine} (hsize : 65536 ≤ m.memory.size) {h : Hooks}
    (hh : h.Keep Frame.sized) (tokens : List Token) :
    ((runTokens h tokens).run m).2.memory.size = (m.memory.storing (tokenBlock m tokens)).size := by
  cases tokens with
  | nil => rfl
  | cons t ts =>
    show ((dispatch h).run ⟨m, ⟨t :: ts, 0⟩⟩).2.machine.memory.size = _
    rw [run_dispatch_cons]
    cases t with
    | numericVar name => exact keeps_runAssign Frame.roomy_sized.calm hh ⟨m, _⟩ hsize
    | stringVar name => exact keeps_runBuildString Frame.roomy_sized.calm hh ⟨m, _⟩ hsize
    | word w =>
      simp only [firstRoutine, dispatch.execute, tokenBlock]
      cases ofName? (upper w) with
      | none => rfl
      | some c =>
        rw [Option.bind_some, blockOf]
        by_cases hload : c = load
        · rw [if_pos hload, hload]
          exact size_runLoad hsize w ts
        by_cases hinclude : c = includeFile
        · rw [if_neg hload, if_pos hinclude, hinclude]
          exact size_runInclude hsize hh w ts
        · rw [if_neg hload, if_neg hinclude]
          exact keeps_sized_routine hh hload hinclude ⟨m, _⟩ hsize
    | _ => rfl

theorem tokenBlock_console (m : Machine) (c : Console) (tokens : List Token) :
    tokenBlock { m with console := c } tokens = tokenBlock m tokens := by
  have hview : SameView m { m with console := c } := ⟨rfl, rfl, rfl⟩
  have hload (args : List Token) : loadBlock { m with console := c } args = loadBlock m args := by
    unfold loadBlock
    split
    · rw [hview.toString, hview.toNumeric]
    · rfl
  have hinclude (args : List Token) :
      includeBlock { m with console := c } args = includeBlock m args := by
    unfold includeBlock
    split
    · rw [hview.toString]
      rfl
    · rfl
  have hblock (args : List Token) : blockOf { m with console := c } args = blockOf m args := by
    funext command
    rw [blockOf, blockOf, hload, hinclude]
  unfold tokenBlock
  split
  · rw [hblock]
  · rfl

end Command

namespace Machine

/-- The machine after the line, whether it succeeded or failed. -/
def lineAfter (m : Machine) (line : Text) : Machine := ((runLine line).run m).2

def linesAfter (m : Machine) (lines : List Text) : Machine := lines.foldl lineAfter m

def lineBlock (m : Machine) (line : Text) : Option (Int × List UInt8) :=
  (Token.parse line).toOption.bind (Command.tokenBlock m)

theorem size_lineAfter {m : Machine} (hsize : 65536 ≤ m.memory.size) {line : Text}
    (hfree : PromptFree line m) :
    (lineAfter m line).memory.size = (m.memory.storing (lineBlock m line)).size := by
  have hh : (Debugger.hooksAt (pure ()) 0).Keep Frame.sized :=
    Debugger.keep_hooksAt (.pure ()) Frame.quits_sized.leaves 0
  rw [lineAfter, lineBlock, ← hfree (pure ()) 0]
  cases hparse : Token.parse line with
  | error e =>
    apply Command.keeps_runLine Frame.roomy_sized hh _ m hsize
    intro tokens htokens
    rw [hparse] at htokens
    cases htokens
  | ok tokens =>
    obtain ⟨c, hrun⟩ := Command.run_runLine hparse (Debugger.hooksAt (pure ()) 0) m
    have htokens := Command.size_runTokens (m := { m with console := c }) hsize hh tokens
    rw [Command.tokenBlock_console] at htokens
    rw [hrun]
    exact htokens

/-- No block that the line stores passes the end of 64 KiB. -/
def StoresInside (m : Machine) (line : Text) : Prop :=
  ∀ b ∈ lineBlock m line, LiesIn 65536 b.1 b.2.length

theorem size_lineAfter_eq_iff {m : Machine} {line : Text} (hfree : PromptFree line m)
    (hsize : m.memory.size = 65536) :
    (lineAfter m line).memory.size = 65536 ↔ StoresInside m line := by
  rw [size_lineAfter (Nat.le_of_eq hsize.symm) hfree, StoresInside]
  cases lineBlock m line with
  | none => simp [Memory.storing, hsize]
  | some b =>
    have hiff := Memory.size_writeData_eq_iff m.memory b.1 b.2
    rw [hsize] at hiff
    simpa [Memory.storing] using hiff

/-- The memory stays 64 KiB long on the way through the lines just when every block lies in it. -/
theorem sizes_linesAfter_iff {m : Machine} (hsize : m.memory.size = 65536) {lines : List Text}
    (hfree : Along lineAfter (fun n line => PromptFree line n) m lines) :
    (∀ k, (linesAfter m (lines.take k)).memory.size = 65536) ↔ Along lineAfter StoresInside m lines :=
  forall_take_iff_along (fun n => n.memory.size = 65536) (fun _ _ => size_lineAfter_eq_iff) hsize hfree

/-- The memory stays 64 KiB long just when no block passes its end, whether the memory is asked directly
or lines are run. In any case its first 64 KiB are as if what passes the end had been dropped. -/
structure SizeStaysIff (xs : List Access) (m : Machine) (lines : List Text) : Prop where
  asked : (∀ k, (Access.afterAll Memory.fresh (xs.take k)).size = 65536) ↔ ∀ x ∈ xs, x.Fits
  shows : Access.Shows (Access.afterAll Memory.fresh xs) (Access.afterAll Memory.fresh (xs.map .cut))
  run : (∀ k, (linesAfter m (lines.take k)).memory.size = 65536) ↔ Along lineAfter StoresInside m lines

theorem memory_size_stays_iff (xs : List Access) (m : Machine) (lines : List Text)
    (hsize : m.memory.size = 65536)
    (hfree : Along lineAfter (fun n line => PromptFree line n) m lines) :
    SizeStaysIff xs m lines where
  asked := Access.sizes_afterAll_iff rfl xs
  shows := Access.Shows.afterAll ⟨Nat.le_refl _, rfl, fun _ _ => rfl⟩ xs
  run := sizes_linesAfter_iff hsize hfree

/-- A machine with a file of two bytes on its disk. -/
def withFile : Machine := { disk := {
  folder := { entries := [("F.BIN".toList, .file [65, 66])] }
  names := [("F.BIN".toList, "F.BIN".toList)] } }

/-- Two bytes at the end, and a word of which only the low byte is inside. -/
def endAccesses : List Access := [.writeData 65534 [1, 2], .writeWord 65535 258]

/-- The same by commands. -/
def endLines : List Text := ["LOAD \"F.BIN\" 65534".toList, "POKEINT 258 65535".toList]

theorem memory_size_stays_to_the_end :
    withFile.memory.size = 65536 ∧
      Along lineAfter (fun n line => PromptFree line n) withFile endLines ∧
      (∀ k, (Access.afterAll Memory.fresh (endAccesses.take k)).size = 65536) ∧
      ∀ k, (linesAfter withFile (endLines.take k)).memory.size = 65536 := by
  have hfree : Along lineAfter (fun n line => PromptFree line n) withFile endLines := by
    have hload : Token.parse "LOAD \"F.BIN\" 65534".toList =
        .ok [.word "LOAD".toList, .quote "\"F.BIN\"".toList, .number 65534] := by decide +kernel
    have hpoke : Token.parse "POKEINT 258 65535".toList =
        .ok [.word "POKEINT".toList, .number 258, .number 65535] := by decide +kernel
    exact ⟨promptFree_of_hookless hload (by decide +kernel) _,
      promptFree_of_hookless hpoke (by decide +kernel) _, trivial⟩
  have hfits : ∀ x ∈ endAccesses, x.Fits := by decide +kernel
  have hinside : Along lineAfter StoresInside withFile endLines := by
    have hload : lineBlock withFile "LOAD \"F.BIN\" 65534".toList = some (65534, [65, 66]) := by
      decide +kernel
    have hpoke : lineBlock (lineAfter withFile "LOAD \"F.BIN\" 65534".toList)
        "POKEINT 258 65535".toList = none := by decide +kernel
    refine ⟨?_, ?_, trivial⟩
    · rintro b hb
      rw [hload] at hb
      cases hb
      decide
    · rintro b hb
      rw [hpoke] at hb
      cases hb
  have hstays := memory_size_stays_iff endAccesses withFile endLines rfl hfree
  exact ⟨rfl, hfree, hstays.asked.mpr hfits, hstays.run.mpr hinside⟩

/-- Two bytes at the last address make the memory longer, and so does a file that is loaded there. -/
theorem memory_grows_past_end :
    (Access.afterAll Memory.fresh [.writeData 65535 [65, 66]]).size = 65537 ∧
      (lineAfter withFile "LOAD \"F.BIN\" 65535".toList).memory.size = 65537 := by
  decide +kernel

end Machine
end BasicMachine
