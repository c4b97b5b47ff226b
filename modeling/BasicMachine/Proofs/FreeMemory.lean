import BasicMachine.Proofs.IncludedFiles
import BasicMachine.Proofs.MemoryGrowth

/-! The memory behind the program. `RAMSTART` is where a program is told that it can put what it loads. It adds
to the start of the program a setting that no file changes, so it stays at the first byte of the program, and
what is loaded there goes over the program. -/
namespace BasicMachine

/-- Items that are put over the front of others leave them as they are if the two begin alike, as far as both
go. -/
theorem take_append_drop_eq_iff {α : Type} {front items : List α} :
    front.take items.length ++ items.drop front.length = items ↔ front <+: items ∨ items <+: front := by
  constructor
  · intro h
    rcases Nat.le_total front.length items.length with hle | hle
    · rw [List.take_of_length_le hle] at h
      exact .inl ⟨_, h⟩
    · rw [List.drop_of_length_le hle, List.append_nil] at h
      rw [← h]
      exact .inr (List.take_prefix _ _)
  · rintro (⟨rest, rfl⟩ | ⟨rest, rfl⟩)
    · simp
    · simp

namespace Machine

/-- A program with these bytes was put together from `m` on, of any length. What stands below the program, the
disk and the other settings are those of `m`. -/
structure Assembled (m n : Machine) (program : List UInt8) : Prop extends Loaded n program where
  disk : n.disk = m.disk
  settings : ∀ name ≠ "prog_size".toList, n.setting name = m.setting name
  room : m.memory.size ≤ n.memory.size
  below : ∀ k < programStart.toNat, n.memory.get k = m.memory.get k

namespace Assembled

variable {m n : Machine} {line : Text} {program bytes : List UInt8}

theorem refl (hempty : m.programSize = 0) (hsize : programStart.toNat ≤ m.memory.size) :
    Assembled m m [] where
  size := hempty
  fits := hsize
  bytes := rfl
  disk := rfl
  settings _ _ := rfl
  room := Nat.le_refl _
  below _ _ := rfl

theorem append (h : Assembled m n program) (bytes : List UInt8) (console : Console) :
    Assembled m { n with
      memory := n.memory.writeData (programStart + n.programSize) bytes
      settings := setNamed "prog_size".toList (n.programSize + bytes.length) n.settings
      console } (program ++ bytes) := by
  obtain ⟨hsize, hfits, hbytes⟩ := h.toLoaded.append bytes
  constructor
  case toLoaded => exact ⟨hsize, hfits, hbytes⟩
  case disk => exact h.disk
  case settings =>
    intro name hname
    rw [← h.settings name hname, setting, setting, lookup_setNamed, if_neg hname]
  case room =>
    rw [h.writeData_behind]
    exact Nat.le_trans h.room (Nat.le_max_left _ _)
  case below =>
    intro k hk
    have hother : (n.memory.write (programStart.toNat + program.length) bytes).get k = n.memory.get k :=
      Bank.get_write_outside (.inl (by omega))
    rw [h.writeData_behind]
    exact hother.trans (h.below k hk)

section Run

variable (h : Assembled m n program) (hsize : 17664 ≤ m.memory.size)
include h hsize

theorem run_line (hline : (Inclusion.file bytes).AskedBy m line) :
    ∃ n', (runLine line).run n = (.ok (), n') ∧ Assembled m n' (program ++ bytes) := by
  obtain ⟨name, hincludes, hholds⟩ : ∃ name, m.Includes line name ∧ m.disk.Holds name bytes := by
    cases hline with
    | file hincludes hholds => exact ⟨_, hincludes, hholds⟩
  obtain ⟨hparse, hcommand, hname⟩ := hincludes
  rw [← toString_congr hsize (Nat.le_trans hsize h.room) h.below] at hname
  have hincludes' : n.Includes line name := ⟨hparse, hcommand, hname⟩
  obtain ⟨console, -, hrun⟩ := hincludes'.run
  rw [← h.disk] at hholds
  have hholds' : (n.withConsole console).disk.Holds name bytes := hholds
  rw [run_includeOrComplain_holds hholds'] at hrun
  exact ⟨_, hrun, h.append bytes console⟩

/-- A sequence of lines puts their files behind the program, one behind the other. -/
theorem run_lines {lines : List (Text × List UInt8)}
    (hlines : ∀ s ∈ lines, (Inclusion.file s.2).AskedBy m s.1) :
    ∃ n', (lines.forM fun s => runLine s.1).run n = (.ok (), n') ∧
      Assembled m n' (program ++ lines.flatMap (·.2)) := by
  induction lines generalizing n program with
  | nil =>
    rw [List.flatMap_nil, List.append_nil]
    exact ⟨n, rfl, h⟩
  | cons s lines ih =>
    obtain ⟨hfirst, hrest⟩ := List.forall_mem_cons.mp hlines
    obtain ⟨n₁, hrun, hstep⟩ := h.run_line hsize hfirst
    obtain ⟨n', hruns, hdone⟩ := ih hstep hrest
    rw [List.flatMap_cons, ← List.append_assoc]
    exact ⟨n', (Run.run_bind_ok hrun).trans hruns, hdone⟩

end Run

end Assembled

/-- The line loads the file with a name to the address that a token stands for. -/
inductive Loads (m : Machine) (line name : Text) (place : Token) : Prop
  | intro {w : Text} {t : Token} {rest : List Token}
      (parsed : Token.parse line = .ok (.word w :: t :: place :: rest))
      (command : Command.ofName? (upper w) = some .load) (names : t.toString m = .ok name)

section Load

variable {m : Machine} {line name : Text} {place : Token} {bytes : List UInt8} {a : Int}

theorem run_setSize {c : Call} (hsize : 65536 ≤ c.machine.memory.size) (n : Nat) :
    ∃ c', (Command.setSize n).run c = (.ok (), c') ∧ Frame.outside.allows c.machine c'.machine := by
  have hkeeps := Command.keeps_setSize Frame.roomy_outside.calm n c
  obtain ⟨c₁, hresult, -, hsize₁, -⟩ := Command.run_setResult (c := c) (by omega) 0
  obtain ⟨con, hnumber⟩ := run_setNumeric (m := c₁.machine) (by omega) (numericAddress_numericName 18) n
  have hname : numericName 18 = ['S'] := rfl
  rw [hname] at hnumber
  rw [Command.setSize, Run.run_bind_ok hresult, Call.run_liftM, hnumber] at hkeeps ⊢
  exact ⟨_, rfl, hkeeps⟩

/-- The file is stored at the address, and beside it only variables change. -/
theorem Loads.run (h : m.Loads line name place) (hsize : 65536 ≤ m.memory.size)
    (hplace : place.toNumeric m = .ok a) (hholds : m.disk.Holds name bytes) :
    ∃ n, (runLine line).run m = (.ok (), n) ∧
      Frame.outside.allows { m with memory := m.memory.writeData a bytes } n := by
  obtain @⟨w, t, rest, hparse, hcommand, hname⟩ := h
  obtain ⟨con, hline⟩ := run_commandLine hparse hcommand m
  have hview : SameView m { m with console := con } := ⟨rfl, rfl, rfl⟩
  have hfirst : Arguments.Has (.word w :: t :: place :: rest) 1 t := ⟨by decide, by decide, rfl⟩
  have hsecond : Arguments.Has (.word w :: t :: place :: rest) 2 place := ⟨by decide, by decide, rfl⟩
  have hload : Command.loadFile.run ⟨{ m with console := con }, ⟨.word w :: t :: place :: rest, 1⟩⟩ =
      (.ok bytes.length, ⟨{ m with memory := m.memory.writeData a bytes, console := con },
        ⟨.word w :: t :: place :: rest, 3⟩⟩) := by
    simp only [Command.loadFile, Call.nextString, Call.nextNumeric, Run.run_bind, Call.run_nextAs _ hfirst,
      hview.toString, hname]
    simp only [Int.reduceAdd, Call.run_nextAs _ hsecond, hview.toNumeric, hplace, Command.sizeOf, Run.run_bind,
      Run.run_get, Run.run_ofExcept, hholds.size, Call.run_liftM, run_loadFile, hholds.load, Run.run_pure]
  have hgrown := Memory.size_le_writeData m.memory a bytes
  obtain ⟨c', hsize', hallows⟩ := run_setSize (c := ⟨{ m with memory := m.memory.writeData a bytes, console := con },
    ⟨.word w :: t :: place :: rest, 3⟩⟩) (Nat.le_trans hsize hgrown) bytes.length
  refine ⟨c'.machine, hline _ c' ?_, hallows⟩
  change (Command.attempt Command.loadFile Command.refused Command.setSize).run _ = _
  rw [Command.run_attempt, hload]
  exact hsize'

/-- After bytes were loaded over it, the program is what it was exactly if they begin like it, or it like
them. -/
theorem Loaded.loaded_over_iff {n : Machine} {program : List UInt8} (h : Loaded m program)
    (hsize : 65536 ≤ m.memory.size)
    (hallows : Frame.outside.allows { m with memory := m.memory.writeData programStart bytes } n) :
    Loaded n program ↔ bytes <+: program ∨ program <+: bytes := by
  have hgrown := Memory.size_le_writeData m.memory programStart bytes
  obtain ⟨hlength, hsettings, -⟩ := hallows (Nat.le_trans hsize hgrown)
  have hprogram : n.programSize = program.length := by
    rw [programSize, setting, hsettings]
    exact h.size
  have hfits : programStart.toNat + program.length ≤ n.memory.size := by
    rw [hlength]
    exact Nat.le_trans h.fits hgrown
  have hbytes : n.memory.slice programStart.toNat program.length =
      bytes.take program.length ++ program.drop bytes.length := by
    have hsame := (sameOutside_of_allows (Nat.le_trans hsize hgrown) hallows).program
    have hwritten : m.memory.writeData programStart bytes = { m.memory.write programStart.toNat bytes with
        size := max m.memory.size (programStart.toNat + bytes.length) } :=
      Memory.writeData_natCast (Nat.le_trans (Nat.le_add_right ..) h.fits) bytes
    have hshown : (m.memory.write programStart.toNat bytes).slice programStart.toNat program.length =
        bytes.take program.length ++ program.drop bytes.length := by
      rw [Bank.slice_write_start, h.bytes]
    rw [programBytes, hprogram, Int.toNat_natCast] at hsame
    rw [hsame, ← hshown, programBytes, hwritten]
    change (m.memory.write programStart.toNat bytes).slice programStart.toNat m.programSize.toNat = _
    rw [h.size, Int.toNat_natCast]
  rw [← take_append_drop_eq_iff, ← hbytes]
  exact ⟨fun hloaded => hloaded.bytes, fun heq => ⟨hprogram, hfits, heq⟩⟩

end Load

def ramStartWord : Token := .word "RAMSTART".toList

/-- From a machine without a program on, files are put together by lines with `INCLUDE`. The keyword `RAMSTART`
then stands for the start of the program, which is behind the program exactly if that is empty. A file that is
loaded there is loaded over the program: this leaves the bytes of the program alone exactly if the file and the
program begin alike, as far as both go. -/
theorem ramStart_behind_program_iff (m : Machine) (lines : List (Text × List UInt8))
    (hsize : 65536 ≤ m.memory.size) (hempty : m.programSize = 0)
    (hoffset : m.setting "prog_offset".toList = 0)
    (hlines : ∀ s ∈ lines, (Inclusion.file s.2).AskedBy m s.1) :
    ∃ n, (lines.forM fun s => runLine s.1).run m = (.ok (), n) ∧ Loaded n (lines.flatMap (·.2)) ∧
      ramStartWord.toNumeric n = .ok programStart ∧
      (programStart + n.programSize ≤ programStart ↔ lines.flatMap (·.2) = []) ∧
      ∀ line name bytes, n.Loads line name ramStartWord → n.disk.Holds name bytes →
        ∃ n', (runLine line).run n = (.ok (), n') ∧
          (Loaded n' (lines.flatMap (·.2)) ↔
            bytes <+: lines.flatMap (·.2) ∨ lines.flatMap (·.2) <+: bytes) := by
  have hstart : programStart.toNat = 32768 := rfl
  have hbegin : Assembled m m [] := .refl hempty (by omega)
  obtain ⟨n, hrun, hdone⟩ := hbegin.run_lines (by omega) hlines
  rw [List.nil_append] at hdone
  generalize lines.flatMap (·.2) = program at hdone ⊢
  have hplace : ramStartWord.toNumeric n = .ok programStart := by
    have hvalue : ramStartWord.toNumeric n = .ok (programStart + n.setting "prog_offset".toList) := rfl
    rw [hvalue, hdone.settings _ (by decide), hoffset, Int.add_zero]
  refine ⟨n, hrun, hdone.toLoaded, hplace, ?_, ?_⟩
  · rw [hdone.size, ← List.length_eq_zero_iff]
    omega
  · intro line name bytes hline hholds
    obtain ⟨n', hload, hallows⟩ := hline.run (Nat.le_trans hsize hdone.room) hplace hholds
    exact ⟨n', hload, hdone.toLoaded.loaded_over_iff (Nat.le_trans hsize hdone.room) hallows⟩

/-- A blank machine with a program and a text on its disk. -/
def withText : Machine where
  disk := {
    folder := { entries := [
      ("P.BAS".toList, .file (CodePage.encode "REM A\n".toList)), ("D.TXT".toList, .file [120])] }
    names := [("P.BAS".toList, "P.BAS".toList), ("D.TXT".toList, "D.TXT".toList)] }

def remarkLine : Text × List UInt8 := ("INCLUDE \"P.BAS\"".toList, CodePage.encode "REM A\n".toList)

theorem remarkLine_askedBy : (Inclusion.file remarkLine.2).AskedBy withText remarkLine.1 := by
  have hparse : Token.parse remarkLine.1 = .ok [.word "INCLUDE".toList, .quote "\"P.BAS\"".toList] := by
    decide +kernel
  have hincludes : withText.Includes remarkLine.1 "P.BAS".toList :=
    ⟨hparse, by decide +kernel, by decide +kernel⟩
  exact .file hincludes (by decide +kernel)

/-- The program is put into memory twice. It can be loaded over itself, and the text cannot. -/
theorem ramStart_behind_program_twice :
    ∃ n, ([remarkLine, remarkLine].forM fun s => runLine s.1).run withText = (.ok (), n) ∧
      Loaded n ([remarkLine, remarkLine].flatMap (·.2)) ∧ ramStartWord.toNumeric n = .ok programStart ∧
      ¬programStart + n.programSize ≤ programStart ∧
      (∃ n', (runLine "LOAD \"P.BAS\" RAMSTART".toList).run n = (.ok (), n') ∧
        Loaded n' ([remarkLine, remarkLine].flatMap (·.2))) ∧
      ∃ n', (runLine "LOAD \"D.TXT\" RAMSTART".toList).run n = (.ok (), n') ∧
        ¬Loaded n' ([remarkLine, remarkLine].flatMap (·.2)) := by
  have hlines : ∀ s ∈ [remarkLine, remarkLine], (Inclusion.file s.2).AskedBy withText s.1 := by
    simp only [List.forall_mem_cons]
    exact ⟨remarkLine_askedBy, remarkLine_askedBy, by simp⟩
  obtain ⟨n, hrun, hloaded, hplace, hbehind, hload⟩ :=
    ramStart_behind_program_iff withText [remarkLine, remarkLine] (by decide +kernel) (by decide +kernel)
      (by decide +kernel) hlines
  obtain rfl : (([remarkLine, remarkLine].forM fun s => runLine s.1).run withText).2 = n := by rw [hrun]
  refine ⟨_, hrun, hloaded, hplace, ?_, ?_, ?_⟩
  · rw [hbehind]
    decide +kernel
  · obtain ⟨n', hself, hkept⟩ := hload "LOAD \"P.BAS\" RAMSTART".toList "P.BAS".toList remarkLine.2
      (@Loads.intro _ _ _ _ "LOAD".toList (.quote "\"P.BAS\"".toList) [] (by decide +kernel)
        (by decide +kernel) (by decide +kernel)) (by decide +kernel)
    exact ⟨n', hself, hkept.mpr (by decide +kernel)⟩
  · obtain ⟨n', htext, hkept⟩ := hload "LOAD \"D.TXT\" RAMSTART".toList "D.TXT".toList [120]
      (@Loads.intro _ _ _ _ "LOAD".toList (.quote "\"D.TXT\"".toList) [] (by decide +kernel)
        (by decide +kernel) (by decide +kernel)) (by decide +kernel)
    refine ⟨n', htext, ?_⟩
    rw [hkept]
    decide +kernel

/-- The text is loaded over the remark. -/
theorem program_overwritten :
    ((runLine remarkLine.1).run withText).1 = .ok () ∧
      ((runLine remarkLine.1).run withText).2.programSize = 6 ∧
      ramStartWord.toNumeric ((runLine remarkLine.1).run withText).2 = .ok programStart ∧
      ((runLine "LOAD \"D.TXT\" RAMSTART".toList).run ((runLine remarkLine.1).run withText).2).1 = .ok () ∧
      ((runLine "LOAD \"D.TXT\" RAMSTART".toList).run
        ((runLine remarkLine.1).run withText).2).2.programBytes = CodePage.encode "xEM A\n".toList := by
  decide +kernel

end Machine
end BasicMachine
