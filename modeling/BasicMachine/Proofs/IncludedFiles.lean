import BasicMachine.Proofs.LabelSearch
import BasicMachine.Proofs.SavedFiles
import BasicMachine.Proofs.Tracking

/-! Programs that are put together from files. Each file that is included goes behind the program as it is, so a
sequence of them leaves their bytes one behind the other, and nothing else in memory changes. A file that is not
there brings up the debugger's prompt; as long as nothing is asked for there but a look at the machine, going on
from it leaves everything but the console as it was. -/
namespace BasicMachine

namespace Machine

def withConsole (m : Machine) (console : Console) : Machine := { m with console }

/-- The step puts something on the console, wherever that stands, and does nothing else. -/
def Prints (x : Action Unit) (m : Machine) : Prop :=
  ∀ console, ∃ console', x.run (m.withConsole console) = (.ok (), m.withConsole console') ∧
    console'.input = console.input

namespace Prints

variable {m : Machine}

theorem line (t : Text) : Prints (typeLine t) m := fun _ => ⟨_, rfl, rfl⟩

theorem report (kind t : Text) : Prints (reportError kind t) m := fun _ => ⟨_, rfl, rfl⟩

theorem bind {x : Action Unit} {f : Unit → Action Unit} (hx : Prints x m) (hf : Prints (f ()) m) :
    Prints (x >>= f) m := by
  intro console
  obtain ⟨console', hrun, hinput⟩ := hx console
  obtain ⟨console'', hrest, hinput'⟩ := hf console'
  exact ⟨console'', (Run.run_bind_ok hrun).trans hrest, hinput'.trans hinput⟩

theorem get_bind {f : Machine → Action Unit} (h : ∀ console, Prints (f (m.withConsole console)) m) :
    Prints (get >>= f) m := fun console => h console console

theorem ask_bind {α : Type} {g : Machine → Except Fault α} {a : α} {f : α → Action Unit}
    (hg : ∀ console, g (m.withConsole console) = .ok a) (h : Prints (f a) m) :
    Prints (ask g >>= f) m := by
  intro console
  obtain ⟨console', hrun, hinput⟩ := h console
  refine ⟨console', ?_, hinput⟩
  rw [Run.run_bind, run_ask, hg]
  exact hrun

theorem forM {ι : Type} {f : ι → Action Unit} {items : List ι} (h : ∀ i ∈ items, Prints (f i) m) :
    Prints (items.forM f) m := by
  induction items with
  | nil => exact fun console => ⟨console, rfl, rfl⟩
  | cons i items ih =>
    obtain ⟨hfirst, hrest⟩ := List.forall_mem_cons.mp h
    exact hfirst.bind (ih hrest)

end Prints

theorem prints_dumpAll {m : Machine} (hsize : 17664 ≤ m.memory.size) : Prints Debugger.dumpAll m := by
  have hnumeric : ∀ name ∈ numericNames, ∃ v, m.numeric name = .ok v := by
    intro name hname
    obtain ⟨i, hi, rfl⟩ := List.mem_map.mp hname
    exact ⟨_, numeric_numericName hsize ⟨i, List.mem_range.mp hi⟩⟩
  have hstring : ∀ name ∈ stringNames, ∃ t, m.string name = .ok t := by
    intro name hname
    obtain ⟨i, hi, rfl⟩ := List.mem_map.mp hname
    exact ⟨_, string_stringName hsize ⟨i, List.mem_range.mp hi⟩⟩
  apply Prints.bind
  · apply Prints.forM
    intro name hname
    obtain ⟨v, hv⟩ := hnumeric name hname
    exact .ask_bind (fun _ => hv) (.line _)
  apply Prints.bind
  · apply Prints.forM
    intro name hname
    obtain ⟨t, ht⟩ := hstring name hname
    exact .ask_bind (fun _ => ht) (.line _)
  apply Prints.bind
  · exact .get_bind fun _ => .forM fun _ _ => .line _
  · exact .get_bind fun _ => .forM fun _ _ => .line _

end Machine

namespace Debugger

/-- A line at the prompt that neither leaves it nor runs a command. -/
def IsQuestion (line : Text) : Prop := line ≠ ['c'] ∧ line ≠ ['q'] ∧ line.head? ≠ some '.'

instance (line : Text) : Decidable (IsQuestion line) :=
  inferInstanceAs (Decidable (_ ∧ _ ∧ _))

section Prompt

variable {m : Machine} {console : Console} {line : Text} {rest : List Text}

theorem run_askLine (h : console.input = line :: rest) :
    ∃ console', askLine.run (m.withConsole console) = (.ok line, m.withConsole console') ∧
      console'.input = rest := by
  refine ⟨{ console with input := rest, printed := promptText :: console.printed }, ?_, rfl⟩
  simp [askLine, Machine.type, Machine.withConsole, Run.run_bind, Run.run_map, h]

theorem run_prompt_question (hsize : 17664 ≤ m.memory.size) (hline : IsQuestion line)
    (h : console.input = line :: rest) (n : Nat) :
    ∃ console', (prompt (n + 1)).run (m.withConsole console) = (prompt n).run (m.withConsole console') ∧
      console'.input = rest := by
  obtain ⟨asked, hasked, rfl⟩ := run_askLine (m := m) h
  -- Whatever is printed in between, the prompt goes on from there.
  have hanswer {x : Action Unit} (hx : Machine.Prints x m) :
      ∃ console', (do x; prompt n).run (m.withConsole asked) = (prompt n).run (m.withConsole console') ∧
        console'.input = asked.input := by
    obtain ⟨console', hrun, hinput⟩ := hx asked
    exact ⟨console', Run.run_bind_ok hrun, hinput⟩
  obtain ⟨hgo, hquit, hrun⟩ := hline
  rw [prompt, Run.run_bind_ok hasked]
  simp only [if_neg hgo, if_neg hquit, if_neg hrun]
  split
  · rw [Run.run_bind_ok (Run.run_get _)]
    exact hanswer (.line _)
  split
  · exact hanswer (Machine.prints_dumpAll hsize)
  · exact hanswer (.line _)

/-- The prompt is left with the first `c`, and only the console has changed. -/
theorem run_prompt (hsize : 17664 ≤ m.memory.size) {questions : List Text}
    (hquestions : ∀ q ∈ questions, IsQuestion q) {n : Nat} (hn : questions.length < n)
    (h : console.input = questions ++ ['c'] :: rest) :
    ∃ console', (prompt n).run (m.withConsole console) = (.ok (), m.withConsole console') ∧
      console'.input = rest := by
  induction questions generalizing console n with
  | nil =>
    obtain ⟨n, rfl⟩ := Nat.exists_eq_add_one.mpr hn
    obtain ⟨console', hasked, hinput⟩ := run_askLine (m := m) h
    refine ⟨console', ?_, hinput⟩
    rw [prompt, Run.run_bind_ok hasked, if_pos rfl, Run.run_pure]
  | cons q questions ih =>
    obtain ⟨hfirst, hrest⟩ := List.forall_mem_cons.mp hquestions
    obtain ⟨n, rfl⟩ := Nat.exists_eq_add_one.mpr (Nat.zero_lt_of_lt hn)
    obtain ⟨console', hrun, hinput⟩ := run_prompt_question hsize hfirst h n
    rw [hrun]
    exact ih hrest (by simpa using hn) hinput

/-- A complaint ends at the prompt, and going on from there changes only the console. -/
theorem run_complain (hsize : 17664 ≤ m.memory.size) (hattached : m.attached = true)
    {questions : List Text} (hquestions : ∀ q ∈ questions, IsQuestion q)
    (h : console.input = questions ++ ['c'] :: rest) (kind t : Text) :
    ∃ console', (hooks.complain kind t).run (m.withConsole console) = (.ok (), m.withConsole console') ∧
      console'.input = rest := by
  obtain ⟨reported, hreport, hinput⟩ := Machine.Prints.report (m := m) kind t console
  obtain ⟨hit, hline, hinput'⟩ := Machine.Prints.line (m := m) "Breakpoint hit.".toList reported
  have hlong : questions.length < reported.input.length := by
    rw [hinput, h]
    simp
  obtain ⟨console', hprompt, hrest⟩ :=
    run_prompt (m := m) hsize hquestions hlong (hinput'.trans (hinput.trans h))
  have henter : (enter (prompt reported.input.length)).run (m.withConsole hit) =
      (.ok (), m.withConsole console') := by
    rw [enter, Run.run_bind_ok (Run.run_get _), ← hprompt]
    simp [Machine.withConsole, hattached]
  have hbreak : onBreak.run (m.withConsole reported) = (.ok (), m.withConsole console') := by
    rw [onBreak, Run.run_bind_ok (show linesLeft.run _ = (.ok reported.input.length, _) from rfl), stopAt,
      Run.run_bind_ok hline, henter]
  exact ⟨console', (Run.run_bind_ok hreport).trans hbreak, hrest⟩

end Prompt

end Debugger

namespace Disk

def Lacks (d : Disk) (name : Text) : Prop := d.host.exists? d.folder (d.path name) = .ok false

theorem Lacks.size {d : Disk} {name : Text} (h : d.Lacks name) :
    d.size name = .error (.fileNotFound name) := by
  have hpath : d.existingPath name = .error (.fileNotFound name) := by
    rw [existingPath, h]
    rfl
  rw [Disk.size, hpath]
  rfl

end Disk

namespace Machine

/-- The line includes the file with a name. -/
inductive Includes (m : Machine) (line name : Text) : Prop
  | intro {w : Text} {t : Token} {ts : List Token} (parsed : Token.parse line = .ok (.word w :: t :: ts))
      (command : Command.ofName? (upper w) = some .includeFile) (names : t.toString m = .ok name)

/-- Puts a file behind a program of some size, or complains that there is none. -/
def includeOrComplain (name : Text) (size : Int) : Action Unit :=
  tryCatch (Command.includeFileAt name size) fun e =>
    if e.isMissingFile then Debugger.hooks.complain "FILE".toList ("File not found: ".toList ++ name)
    else throw e

section Step

variable {n : Machine} {line name : Text} {bytes : List UInt8}

/-- The line is logged, and then the file is put behind the program, or it is complained about. -/
theorem Includes.run (h : n.Includes line name) :
    ∃ c : Console, c.input = n.console.input ∧
      (runLine line).run n = (includeOrComplain name n.programSize).run (n.withConsole c) := by
  obtain @⟨w, t, ts, hparse, hcommand, hname⟩ := h
  obtain ⟨c, hinput, hrun⟩ := Act.run_execute
    (show (Act.stored line).tokens? = some _ from toOption_eq_some_iff.mpr hparse) n
  have hname' : t.toString (n.withConsole c) = .ok name := hname
  have hnext : Arguments.Has (.word w :: t :: ts) 1 t := ⟨by decide, by decide, rfl⟩
  have hroutine : (Command.runInclude Debugger.hooks).run ⟨n.withConsole c, ⟨.word w :: t :: ts, 1⟩⟩ =
      (((includeOrComplain name n.programSize).run (n.withConsole c)).1,
        ⟨((includeOrComplain name n.programSize).run (n.withConsole c)).2, ⟨.word w :: t :: ts, 2⟩⟩) := by
    rw [Command.runInclude, Call.nextString, Run.run_bind, Call.run_nextAs _ hnext, hname']
    simp only [Run.run_bind, Run.run_get, Run.run_tryCatch, Call.onMachine, Run.run_onPart, includeOrComplain]
    generalize hincluded : (Command.includeFileAt name n.programSize).run (n.withConsole c) = x
    rw [show (n.withConsole c).programSize = n.programSize from rfl, hincluded]
    obtain ⟨result, n'⟩ := x
    cases result with
    | ok _ => rfl
    | error e =>
      dsimp only
      split
      · rfl
      · rfl
  refine ⟨c, hinput, hrun.trans ?_⟩
  exact Command.run_withArguments ((Command.run_dispatch_command _ _ hcommand _).trans hroutine)

theorem run_includeOrComplain_holds (h : n.disk.Holds name bytes) (size : Int) :
    (includeOrComplain name size).run n = (.ok (), { n with
      memory := n.memory.writeData (programStart + size) bytes
      settings := setNamed "prog_size".toList (size + bytes.length) n.settings }) := by
  have hsize : (ask fun m => m.disk.size name).run n = (.ok bytes.length, n) := by rw [run_ask, h.size]
  have hload : (ask fun m => m.disk.load name).run n = (.ok bytes, n) := by rw [run_ask, h.load]
  rw [includeOrComplain, Run.run_tryCatch, Command.includeFileAt, Run.run_bind_ok hsize,
    Run.run_bind_ok hload, Run.run_bind_ok (Run.run_modify _ _), setProgramSize, setSetting, Run.run_modify]

theorem run_includeOrComplain_lacks (h : n.disk.Lacks name) (size : Int) :
    (includeOrComplain name size).run n =
      (Debugger.hooks.complain "FILE".toList ("File not found: ".toList ++ name)).run n := by
  have hsize : (ask fun m => m.disk.size name).run n = (.error (.fileNotFound name), n) := by
    rw [run_ask, h.size]
  rw [includeOrComplain, Run.run_tryCatch, Command.includeFileAt, Run.run_bind_error hsize]
  rfl

/-- A missing file brings up the prompt, and when that is left only the console has changed. -/
theorem run_include_missing (hsize : 17664 ≤ n.memory.size) (hattached : n.attached = true)
    (hline : n.Includes line name) (hlacks : n.disk.Lacks name) {questions rest : List Text}
    (hquestions : ∀ q ∈ questions, Debugger.IsQuestion q)
    (hinput : n.console.input = questions ++ ['c'] :: rest) :
    ∃ console, (runLine line).run n = (.ok (), n.withConsole console) ∧ console.input = rest := by
  obtain ⟨logged, hlogged, hrun⟩ := hline.run
  obtain ⟨console, hcomplain, hrest⟩ := Debugger.run_complain hsize hattached hquestions
    (hlogged.trans hinput) "FILE".toList ("File not found: ".toList ++ name)
  refine ⟨console, ?_, hrest⟩
  have hlacks' : (n.withConsole logged).disk.Lacks name := hlacks
  rw [hrun, run_includeOrComplain_lacks hlacks', hcomplain]

end Step

/-- The text variables lie below the program, so they are read the same if the memory there is the same. -/
theorem string_congr {m n : Machine} (hm : 17664 ≤ m.memory.size) (hn : 17664 ≤ n.memory.size)
    (h : ∀ k < programStart.toNat, n.memory.get k = m.memory.get k) (name : Text) :
    n.string name = m.string name := by
  cases haddress : stringAddress name with
  | error e =>
    rw [string, string, haddress]
    rfl
  | ok a =>
    obtain ⟨i, rfl⟩ := exists_blockStart haddress
    have hsame (k : Machine) : k.string name = k.string (stringName i) := by
      rw [string, string, haddress, stringAddress_stringName]
    have hbelow {k : Nat} (hk : (Variable.string i).Covers k) : k < programStart.toNat := by
      have hlast : k < blockStart i + 127 := hk.2
      have hend := blockStart_lt i
      have hstart : programStart.toNat = 32768 := rfl
      omega
    have hblock : SameIn m n (.string i) := sameIn_of_bytes hm hn fun k hk => h k (hbelow hk)
    rw [hsame, hsame]
    exact hblock

theorem toString_congr {m n : Machine} (hm : 17664 ≤ m.memory.size) (hn : 17664 ≤ n.memory.size)
    (h : ∀ k < programStart.toNat, n.memory.get k = m.memory.get k) (t : Token) :
    t.toString n = t.toString m := by
  cases t with
  | stringVar name => exact string_congr hm hn h name
  | _ => rfl

namespace Loaded

variable {n : Machine} {done : List UInt8} (h : Loaded n done) (bytes : List UInt8)
include h

theorem writeData_behind : n.memory.writeData (programStart + n.programSize) bytes =
    { n.memory.write (programStart.toNat + done.length) bytes with
      size := max n.memory.size (programStart.toNat + done.length + bytes.length) } := by
  have hplace : programStart + n.programSize = ((programStart.toNat + done.length : Nat) : Int) := by
    rw [h.size]
    rfl
  rw [hplace, Memory.writeData_natCast h.fits]

theorem append : Loaded { n with
    memory := n.memory.writeData (programStart + n.programSize) bytes
    settings := setNamed "prog_size".toList (n.programSize + bytes.length) n.settings } (done ++ bytes) where
  size := by
    rw [programSize, setting, lookup_setNamed, if_pos rfl, h.size, List.length_append, Int.natCast_add]
    rfl
  fits := by
    rw [h.writeData_behind, List.length_append, ← Nat.add_assoc]
    exact Nat.le_max_right _ _
  bytes := by
    have hslice (b : Memory) (size i k : Nat) : Bank.slice { b with size := size } i k = b.slice i k := rfl
    rw [h.writeData_behind, hslice, List.length_append, Bank.slice_add,
      Bank.slice_write_outside (.inl (Nat.le_refl _)), h.bytes, Bank.slice_write_self]

end Loaded

/-- A program with these bytes was put together from `m` on. Beside it and its size only the console can have
changed. -/
structure Included (m n : Machine) (program : List UInt8) : Prop extends Loaded n program where
  beside : n = { m with memory := n.memory, settings := n.settings, console := n.console }
  settings : ∀ name ≠ "prog_size".toList, n.setting name = m.setting name
  length : n.memory.size = m.memory.size
  outside : ∀ k, k < programStart.toNat ∨ programStart.toNat + program.length ≤ k →
    n.memory.get k = m.memory.get k

namespace Included

variable {m n : Machine} {line name : Text} {bytes done : List UInt8}

theorem refl (hempty : m.programSize = 0) (hsize : programStart.toNat ≤ m.memory.size) :
    Included m m [] where
  size := hempty
  fits := hsize
  bytes := rfl
  beside := rfl
  settings _ _ := rfl
  length := rfl
  outside _ _ := rfl

theorem withConsole (h : Included m n bytes) (console : Console) : Included m (n.withConsole console) bytes where
  size := h.size
  fits := h.fits
  bytes := h.bytes
  beside := by rw [Machine.withConsole, h.beside]
  settings := h.settings
  length := h.length
  outside := h.outside

theorem disk_eq (h : Included m n done) : n.disk = m.disk := by rw [h.beside]

theorem attached_eq (h : Included m n done) : n.attached = m.attached := by rw [h.beside]

theorem includes (h : Included m n done) (hsize : 17664 ≤ m.memory.size) (hline : m.Includes line name) :
    n.Includes line name := by
  obtain ⟨hparse, hcommand, hname⟩ := hline
  have hbelow : ∀ k < programStart.toNat, n.memory.get k = m.memory.get k := fun k hk => h.outside k (.inl hk)
  rw [← toString_congr hsize (h.length ▸ hsize) hbelow] at hname
  exact ⟨hparse, hcommand, hname⟩

/-- One more block of bytes goes behind the program. -/
theorem append (h : Included m n done)
    (hfits : programStart.toNat + (done ++ bytes).length ≤ m.memory.size) :
    Included m { n with
      memory := n.memory.writeData (programStart + n.programSize) bytes
      settings := setNamed "prog_size".toList (n.programSize + bytes.length) n.settings } (done ++ bytes) := by
  rw [List.length_append] at hfits
  have hwrite := h.writeData_behind bytes
  rw [h.length, Nat.max_eq_left (by omega)] at hwrite
  constructor
  case toLoaded =>
    exact h.toLoaded.append bytes
  case beside =>
    rw [h.beside]
  case settings =>
    intro name hname
    rw [← h.settings name hname, setting, setting, lookup_setNamed, if_neg hname]
  case length =>
    rw [hwrite]
  case outside =>
    intro k hk
    rw [List.length_append] at hk
    have hother : (n.memory.write (programStart.toNat + done.length) bytes).get k = n.memory.get k :=
      Bank.get_write_outside (by omega)
    rw [hwrite]
    exact hother.trans (h.outside k (by omega))

end Included

/-- What a line with `INCLUDE` comes to: the bytes of a file, or a prompt that is left after some questions. -/
inductive Inclusion where
  | file (bytes : List UInt8)
  | missing (questions : List Text)

namespace Inclusion

/-- What goes behind the program. -/
def bytes : Inclusion → List UInt8
  | file bytes => bytes
  | missing _ => []

/-- What is typed at the prompt. -/
def typed : Inclusion → List Text
  | file _ => []
  | missing questions => questions ++ [['c']]

/-- The line comes to this. A prompt needs the interpreter. -/
inductive AskedBy (m : Machine) (line : Text) : Inclusion → Prop
  | file {name : Text} {bytes : List UInt8} (includes : m.Includes line name)
      (holds : m.disk.Holds name bytes) : AskedBy m line (.file bytes)
  | missing {name : Text} {questions : List Text} (includes : m.Includes line name)
      (lacks : m.disk.Lacks name) (attached : m.attached = true)
      (asked : ∀ q ∈ questions, Debugger.IsQuestion q) : AskedBy m line (.missing questions)

end Inclusion

namespace Included

variable {m n : Machine} {line : Text} {program : List UInt8} {rest : List Text}
  (h : Included m n program) (hsize : 17664 ≤ m.memory.size)
include h hsize

theorem run_missing {questions : List Text} (hline : (Inclusion.missing questions).AskedBy m line)
    (hinput : n.console.input = questions ++ ['c'] :: rest) :
    ∃ console, (runLine line).run n = (.ok (), n.withConsole console) ∧ console.input = rest := by
  cases hline with
  | missing hincludes hlacks hattached hquestions =>
    rw [← h.disk_eq] at hlacks
    rw [← h.attached_eq] at hattached
    exact run_include_missing (h.length ▸ hsize) hattached (h.includes hsize hincludes) hlacks hquestions
      hinput

/-- One line puts its bytes behind the program, and uses up what is typed for it. -/
theorem run_line {i : Inclusion} (hline : i.AskedBy m line) (hinput : n.console.input = i.typed ++ rest)
    (hfits : programStart.toNat + (program ++ i.bytes).length ≤ m.memory.size) :
    ∃ n', (runLine line).run n = (.ok (), n') ∧ Included m n' (program ++ i.bytes) ∧
      n'.console.input = rest := by
  cases i with
  | missing questions =>
    have hinput' : n.console.input = questions ++ ['c'] :: rest := by
      rw [hinput, Inclusion.typed, List.append_assoc, List.singleton_append]
    obtain ⟨console, hrun, hrest⟩ := h.run_missing hsize hline hinput'
    refine ⟨_, hrun, ?_, hrest⟩
    rw [Inclusion.bytes, List.append_nil]
    exact h.withConsole console
  | file bytes =>
    cases hline with
    | file hincludes hholds =>
      rw [← h.disk_eq] at hholds
      obtain ⟨logged, hlogged, hrun⟩ := (h.includes hsize hincludes).run
      have hholds' : (n.withConsole logged).disk.Holds _ bytes := hholds
      rw [run_includeOrComplain_holds hholds'] at hrun
      exact ⟨_, hrun, (h.withConsole logged).append hfits, hlogged.trans hinput⟩

/-- A sequence of lines puts their bytes behind the program, one behind the other. -/
theorem run_lines {lines : List (Text × Inclusion)} (hlines : ∀ s ∈ lines, s.2.AskedBy m s.1)
    (hinput : n.console.input = lines.flatMap (·.2.typed) ++ rest)
    (hfits : programStart.toNat + (program ++ lines.flatMap (·.2.bytes)).length ≤ m.memory.size) :
    ∃ n', (lines.forM fun s => runLine s.1).run n = (.ok (), n') ∧
      Included m n' (program ++ lines.flatMap (·.2.bytes)) ∧ n'.console.input = rest := by
  induction lines generalizing n program with
  | nil =>
    rw [List.flatMap_nil, List.append_nil]
    exact ⟨n, rfl, h, hinput⟩
  | cons s lines ih =>
    obtain ⟨hfirst, hrest⟩ := List.forall_mem_cons.mp hlines
    rw [List.flatMap_cons, List.append_assoc] at hinput
    rw [List.flatMap_cons, ← List.append_assoc] at hfits ⊢
    have hfits' : programStart.toNat + (program ++ s.2.bytes).length ≤ m.memory.size := by
      rw [List.length_append] at hfits
      omega
    obtain ⟨n₁, hrun, hincluded, hinput₁⟩ := h.run_line hsize hfirst hinput hfits'
    obtain ⟨n', hruns, hdone⟩ := ih hincluded hrest hinput₁ hfits
    exact ⟨n', (Run.run_bind_ok hrun).trans hruns, hdone⟩

end Included

/-- Lines that include files put them together, from a machine without a program: the files stand one behind
the other from the start of the program on, the size of the program is the size of them all, and nothing else
in memory changes. A line whose file is missing comes back from the prompt with the same memory and the same
size of the program. -/
theorem includes_concatenate (m : Machine) (lines : List (Text × Inclusion)) (rest : List Text)
    (hsize : m.memory.size = 65536) (hempty : m.programSize = 0)
    (hlines : ∀ s ∈ lines, s.2.AskedBy m s.1)
    (hinput : m.console.input = lines.flatMap (·.2.typed) ++ rest)
    (hfits : (lines.flatMap (·.2.bytes)).length ≤ 32768) :
    (∃ n, (lines.forM fun s => runLine s.1).run m = (.ok (), n) ∧
        Included m n (lines.flatMap (·.2.bytes))) ∧
      ∀ before line questions after, lines = before ++ (line, .missing questions) :: after →
        ∃ n n', (before.forM fun s => runLine s.1).run m = (.ok (), n) ∧
          (runLine line).run n = (.ok (), n') ∧ n'.memory = n.memory ∧ n'.programSize = n.programSize := by
  have hstart : programStart.toNat = 32768 := rfl
  have hbegin : Included m m [] := .refl hempty (by omega)
  have hroom : 17664 ≤ m.memory.size := by omega
  constructor
  · obtain ⟨n, hrun, hincluded, -⟩ := hbegin.run_lines hroom hlines hinput (by
      rw [List.nil_append]
      omega)
    exact ⟨n, hrun, hincluded⟩
  · rintro before line questions after rfl
    obtain ⟨hbefore, hline⟩ := List.forall_mem_append.mp hlines
    rw [List.flatMap_append, List.append_assoc] at hinput
    obtain ⟨n, hrun, hincluded, hleft⟩ := hbegin.run_lines hroom hbefore hinput (by
      rw [List.flatMap_append, List.length_append] at hfits
      rw [List.nil_append]
      omega)
    have htyped : n.console.input = questions ++ ['c'] :: (after.flatMap (·.2.typed) ++ rest) := by
      rw [hleft]
      simp [Inclusion.typed]
    obtain ⟨console, hmissing, -⟩ := hincluded.run_missing hroom (hline _ List.mem_cons_self) htyped
    exact ⟨n, _, hrun, hmissing, rfl, rfl⟩

/-- A machine with the two parts of a program on its disk, the name of the second in a variable, and lines to
be typed at a prompt. -/
def withParts : Machine where
  memory := Memory.fresh.write 16640 (CodePage.encode "SECOND.BAS".toList)
  disk := {
    folder := { entries := [
      ("first part.bas".toList, .file [65, 10]), ("SECOND.BAS".toList, .file [66, 0, 255])] }
    names := [("first part.bas".toList, "FIRSTP~1.BAS".toList), ("SECOND.BAS".toList, "SECOND.BAS".toList)] }
  console := { input := [['v'], ['?'], ['c'], ['p']] }
  attached := true

/-- Between the two parts a file is missing. At the prompt the variables are shown, and then the help. -/
def partLines : List (Text × Inclusion) :=
  [("INCLUDE \"FIRSTP~1.BAS\"".toList, .file [65, 10]),
    ("INCLUDE \"NONE.BAS\"".toList, .missing [['v'], ['?']]),
    ("include $1".toList, .file [66, 0, 255])]

theorem includes_concatenate_parts :
    withParts.memory.size = 65536 ∧ withParts.programSize = 0 ∧
      (∀ s ∈ partLines, s.2.AskedBy withParts s.1) ∧
      withParts.console.input = partLines.flatMap (·.2.typed) ++ [['p']] ∧
      (partLines.flatMap (·.2.bytes)).length ≤ 32768 ∧
      (∃ n, (partLines.forM fun s => runLine s.1).run withParts = (.ok (), n) ∧
        Included withParts n [65, 10, 66, 0, 255]) ∧
      ∃ n n', ((partLines.take 1).forM fun s => runLine s.1).run withParts = (.ok (), n) ∧
        (runLine "INCLUDE \"NONE.BAS\"".toList).run n = (.ok (), n') ∧
        n'.memory = n.memory ∧ n'.programSize = n.programSize := by
  have hfirst : withParts.Includes "INCLUDE \"FIRSTP~1.BAS\"".toList "FIRSTP~1.BAS".toList := by
    have hparse : Token.parse "INCLUDE \"FIRSTP~1.BAS\"".toList =
        .ok [.word "INCLUDE".toList, .quote "\"FIRSTP~1.BAS\"".toList] := by decide +kernel
    exact ⟨hparse, by decide +kernel, by decide +kernel⟩
  have hnone : withParts.Includes "INCLUDE \"NONE.BAS\"".toList "NONE.BAS".toList := by
    have hparse : Token.parse "INCLUDE \"NONE.BAS\"".toList =
        .ok [.word "INCLUDE".toList, .quote "\"NONE.BAS\"".toList] := by decide +kernel
    exact ⟨hparse, by decide +kernel, by decide +kernel⟩
  have hsecond : withParts.Includes "include $1".toList "SECOND.BAS".toList := by
    have hparse : Token.parse "include $1".toList = .ok [.word "include".toList, .stringVar "$1".toList] := by
      decide +kernel
    exact ⟨hparse, by decide +kernel, by decide +kernel⟩
  have hlines : ∀ s ∈ partLines, s.2.AskedBy withParts s.1 := by
    simp only [partLines, List.forall_mem_cons]
    refine ⟨.file hfirst ?_, .missing hnone ?_ rfl (by decide), .file hsecond ?_, by simp⟩
    · decide +kernel
    · show _ = _
      decide +kernel
    · decide +kernel
  have hsize : withParts.memory.size = 65536 := by decide +kernel
  have hempty : withParts.programSize = 0 := by decide +kernel
  have htyped : withParts.console.input = partLines.flatMap (·.2.typed) ++ [['p']] := by decide +kernel
  have hfits : (partLines.flatMap (·.2.bytes)).length ≤ 32768 := by decide
  obtain ⟨hdone, hmissing⟩ := includes_concatenate withParts partLines [['p']] hsize hempty hlines htyped hfits
  exact ⟨hsize, hempty, hlines, htyped, hfits, hdone, hmissing (partLines.take 1) _ _ (partLines.drop 2) rfl⟩

end Machine

end BasicMachine
