import BasicMachine.Boot
import BasicMachine.Proofs.DiskListing
import BasicMachine.Proofs.LineLayout
import BasicMachine.Proofs.ProgramText
import BasicMachine.Proofs.StraightLine

/-! Running a program from the disk. The three lines in the queue load it, go to its start and set it going;
then every turn runs the line at the next address, until there is none. A program of plain lines is run
line by line, so it leaves the memory that its lines leave when they are run one after another. -/
namespace BasicMachine

open Run (Simulates)

def includeLine (name : Text) : Text := "INCLUDE \"".toList ++ name ++ ['"']

def gotoLine : Text := "GOTO PROGSTART".toList

def startRequest : Text := "/RUN".toList

theorem parse_includeLine {name : Text} (h : ShortName.Valid name) :
    Token.parse (includeLine name) =
      .ok [.word "INCLUDE".toList, .quote ('"' :: name ++ ['"'])] := by
  have hinvalid (c : Char) (hc : ShortName.isValidChar c = false) : c ∉ name := by
    intro hmem
    simp [h c hmem] at hc
  have hcanonical : ∀ t ∈ [Token.word "INCLUDE".toList, .quote ('"' :: name ++ ['"'])],
      Token.Canonical t := by
    simp only [List.forall_mem_cons]
    exact ⟨.word _ (by decide) (List.all_eq_true.mp (by decide)),
      .quote name (hinvalid '"' (by decide +kernel)) (hinvalid '\r' (by decide +kernel)), by simp⟩
  have hspaced := Token.Spaced.more "INCLUDE".toList 0 (.one ('"' :: name ++ ['"']))
  have hsplit := @Token.splitLine_spaced _ hcanonical (by rintro t ⟨⟩; decide) [] _ [] (by simp) (by simp) hspaced
  rw [List.append_nil] at hsplit
  exact Token.parse_of_splitLine hcanonical hsplit

theorem parse_gotoLine :
    Token.parse gotoLine = .ok [.word "GOTO".toList, .word "PROGSTART".toList] := by
  decide +kernel

theorem Command.run_runLine {line : Text} {tokens : List Token} (hparse : Token.parse line = .ok tokens)
    (h : Hooks) (m : Machine) :
    ∃ c, (runLine h line).run m = (runTokens h tokens).run { m with console := c } := by
  obtain ⟨c, hlog⟩ := Machine.run_report .debug "COMMAND".toList
    ("Running command: \"".toList ++ line ++ ['"']) m
  refine ⟨c, ?_⟩
  rw [runLine, Machine.logCommand, Machine.debug, Run.run_bind_ok hlog, hparse]
  rfl

namespace Machine

theorem run_runLine {line : Text} {tokens : List Token} (hparse : Token.parse line = .ok tokens)
    (m : Machine) :
    ∃ c, (runLine line).run m = (runTokens tokens).run { m with console := c } :=
  Command.run_runLine hparse Debugger.hooks m

/-- A line that begins with the name of a command is logged, and then the routine of the command is run. -/
theorem run_commandLine {line w : Text} {ts : List Token} {command : Command}
    (hparse : Token.parse line = .ok (.word w :: ts)) (hname : Command.ofName? (upper w) = some command)
    (m : Machine) :
    ∃ c, ∀ result after, (command.routine Debugger.hooks).run
        ⟨{ m with console := c }, ⟨.word w :: ts, 1⟩⟩ = (result, after) →
      (runLine line).run m = (result, after.machine) := by
  obtain ⟨c, hline⟩ := run_runLine hparse m
  refine ⟨c, fun result after hroutine => ?_⟩
  have hdispatch := Command.run_dispatch_command Debugger.hooks { m with console := c } hname ts
  exact hline.trans (Command.run_withArguments (hdispatch.trans hroutine))

/-- The machine with a program in its place. -/
def withProgram (m : Machine) (bytes : List UInt8) : Machine :=
  { m with
    memory := m.memory.writeData programStart bytes
    settings := setNamed "prog_size".toList bytes.length m.settings }

theorem run_includeFileAt {m : Machine} {name : Text} {bytes : List UInt8}
    (hfile : m.disk.Stores name bytes) :
    (Command.includeFileAt name 0).run m = (.ok (), m.withProgram bytes) := by
  simp [Command.includeFileAt, Run.run_bind, hfile.size, hfile.load, setProgramSize, setSetting,
    withProgram]

theorem run_includeTokens {m : Machine} {name : Text} {bytes : List UInt8}
    (hfile : m.disk.Stores name bytes) (hempty : m.programSize = 0) :
    (runTokens [.word "INCLUDE".toList, .quote ('"' :: name ++ ['"'])]).run m =
      (.ok (), m.withProgram bytes) := by
  have hname : Arguments.Has [.word "INCLUDE".toList, .quote ('"' :: name ++ ['"'])] 1
      (.quote ('"' :: name ++ ['"'])) := ⟨by decide, by decide, rfl⟩
  have hread : Token.toString m (.quote ('"' :: name ++ ['"'])) = .ok name := by
    simp [Token.toString]
  have hroutine : (Command.runInclude Debugger.hooks).run
      ⟨m, ⟨[.word "INCLUDE".toList, .quote ('"' :: name ++ ['"'])], 1⟩⟩ =
      (.ok (), ⟨m.withProgram bytes,
        ⟨[.word "INCLUDE".toList, .quote ('"' :: name ++ ['"'])], 2⟩⟩) := by
    rw [Command.runInclude, Call.nextString, Run.run_bind, Call.run_nextAs _ hname, hread]
    simp only [Run.run_bind, Run.run_get, hempty, Run.run_tryCatch, Call.onMachine, Run.run_onPart,
      run_includeFileAt hfile]
    rfl
  exact Command.run_withArguments
    ((Command.run_dispatch_word Debugger.hooks m "INCLUDE".toList _).trans hroutine)

theorem run_includeLine {m : Machine} {name : Text} {bytes : List UInt8}
    (hfile : m.disk.Stores name bytes) (hempty : m.programSize = 0) :
    ∃ c, (runLine (includeLine name)).run m =
      (.ok (), { m.withProgram bytes with console := c }) := by
  obtain ⟨c, hline⟩ := run_runLine (parse_includeLine hfile.valid) m
  exact ⟨c, hline.trans (@run_includeTokens { m with console := c } _ _ hfile hempty)⟩

theorem run_gotoLine (m : Machine) :
    ∃ c, (runLine gotoLine).run m = (.ok (), { m with
      control := { m.control with next := programStart }
      console := c }) := by
  obtain ⟨c, hline⟩ := run_runLine parse_gotoLine m
  exact ⟨c, hline⟩

theorem run_startRequest (m : Machine) :
    (runQueued startRequest).run m = (.ok (), { m with running := true }) := rfl

theorem turn_queued {n : Machine} {line : Text} {rest : List Text}
    (hpending : n.control.pending = none) (hqueue : n.queue = line :: rest) :
    turn.run n = (runQueued line).run { n with queue := rest } := by
  simp [turn, runPending, Run.run_bind, hpending, hqueue]

section Unqueued

variable {n n' : Machine} (hpending : n.control.pending = none) (hqueue : n.queue = [])
  (hrunning : n.running = true)
include hpending hqueue hrunning

theorem turn_found {line : Text} (h : nextProgramLine.run n = (.ok (some line), n')) :
    turn.run n = (runLine line).run n' := by
  simp [turn, runPending, runFromMemory, Run.run_bind, hpending, hqueue, hrunning, h]

theorem turn_none (h : nextProgramLine.run n = (.ok none, n')) :
    turn.run n = Debugger.onExit.run { n' with running := false } := by
  simp [turn, runPending, runFromMemory, Run.run_bind, hpending, hqueue, hrunning, h]

end Unqueued

theorem nextProgramLine_found {n : Machine} {a b : Nat} {line : Text} (hnext : n.control.next = a)
    (hread : n.memory.readLine a = .ok line) (hskip : n.memory.nextLine a = .ok b) :
    nextProgramLine.run n = (.ok (some line), { n with control := { n.control with
      counter := a, next := b } }) := by
  simp [nextProgramLine, readProgramLine, changeControl, Run.run_tryCatch, Run.run_bind, Run.run_map,
    hnext, hread, hskip]

theorem nextProgramLine_end {n : Machine} {a : Nat} {line : Text} (hnext : n.control.next = a)
    (hread : n.memory.readLine a = .ok line) (hskip : n.memory.nextLine a = .error .noNewline) :
    nextProgramLine.run n = (.ok none, { n with control := { n.control with counter := a } }) := by
  simp [nextProgramLine, readProgramLine, changeControl, Run.run_tryCatch, Run.run_bind, Run.run_map,
    hnext, hread, hskip]

theorem run_onExit {n : Machine} (h : n.debugger.promptOnExit = false) :
    Debugger.onExit.run n = (.ok (), { n with
      debugger := { n.debugger with finished := true }, programFinished := true }) := by
  simp [Debugger.onExit, Debugger.linesLeft, Debugger.exitTo, Run.run_bind, h]

end Machine

/-- Between two turns the machine `n` has the lines from `a` on before it, and its memory is the one
that `m` has. -/
structure Executing (m n : Machine) (a : Nat) (lines : List (List UInt8)) : Prop where
  view : SameView m n
  text : Memory.Ends n.memory a (programOf lines)
  above : 32768 ≤ a
  queue : n.queue = []
  running : n.running = true
  pending : n.control.pending = none
  next : n.control.next = a
  going : n.isDone = false
  noPrompt : n.debugger.promptOnExit = false

namespace Executing

variable {m n : Machine} {a : Nat} {line : List UInt8} {lines : List (List UInt8)}

/-- A turn runs the line at the next address and no other. -/
theorem turn_line (h : Executing m n a (line :: lines)) (hfits : FitsLine line)
    (hplain : Command.isPlainLine (CodePage.decode line) = true) {m' : Machine}
    (hrun : (Command.runLine Hooks.failing (CodePage.decode line)).run m = (.ok (), m')) :
    ∃ n', Machine.turn.run n = (.ok (), n') ∧ n'.control.counter = a ∧
      Executing m' n' (a + line.length + 1) lines := by
  have htext : Memory.Ends n.memory a (line ++ Memory.newline :: programOf lines) := by
    simpa [programOf] using h.text
  have hturn := Machine.turn_found h.pending h.queue h.running
    (Machine.nextProgramLine_found h.next (htext.readLine hfits) (htext.nextLine hfits))
  -- The search for the line changes the control alone, which a plain line does not see.
  have halong : RunsAlong _ m { n with control := { n.control with
      counter := a, next := (a + line.length + 1 : Nat) } } :=
    { h.view with frame := rfl, size := htext.size, program := fun _ _ => rfl }
  obtain ⟨n', hline, hn'⟩ := Command.simulates_runLine Debugger.hooks hplain m _ halong () m' hrun
  have hframe := hn'.frame
  refine ⟨n', hturn.trans hline, by rw [hframe], ?_⟩
  have hrest : Memory.Ends n.memory (a + line.length + 1) (programOf lines) := by
    have hsplit : line ++ Memory.newline :: programOf lines =
        (line ++ [Memory.newline]) ++ programOf lines := by simp
    rw [hsplit] at htext
    simpa [Nat.add_assoc] using htext.drop
  have habove := h.above
  exact {
    view := hn'.toSameView
    text := hrest.congr hn'.size fun k hk => hn'.program k (by omega)
    above := by omega
    queue := by rw [hframe]; exact h.queue
    running := by rw [hframe]; exact h.running
    pending := by rw [hframe]; exact h.pending
    next := by rw [hframe]
    going := by rw [hframe]; exact h.going
    noPrompt := by rw [hframe]; exact h.noPrompt }

theorem turn_end (h : Executing m n a []) :
    ∃ n', Machine.turn.run n = (.ok (), n') ∧ n'.control.counter = a ∧
      n'.programFinished = true ∧ n'.memory = m.memory := by
  obtain ⟨t, hread⟩ := Memory.exists_readLine n.memory a
  have hturn := Machine.turn_none h.pending h.queue h.running
    (Machine.nextProgramLine_end h.next hread (Memory.Ends.nextLine_nil h.text))
  exact ⟨_, hturn.trans (Machine.run_onExit h.noPrompt), rfl, rfl, h.view.memory⟩

end Executing

/-- A run that ends with the end of its program and leaves this memory. `counters` are the addresses of the
lines, one for each turn. -/
structure Finishes (memory : Memory) (counters : List Int) (run : Report × Machine) : Prop where
  ending : run.1.ending = .finished
  turns : run.1.turns = counters.length
  counter : run.1.trace.map Glimpse.counter = counters
  finished : run.2.programFinished = true
  memory : run.2.memory = memory

namespace Finishes

variable {n n' : Machine} {memory : Memory} {counters : List Int} {limit : Nat}

theorem of_finished (h : n.programFinished = true) : Finishes n.memory [] (n.runTurns limit) := by
  have hrun : n.runTurns limit = n.finish := by
    cases limit <;> simp [Machine.runTurns, Machine.isDone, h]
  rw [hrun]
  exact ⟨rfl, rfl, rfl, h, rfl⟩

theorem turn (hrest : Finishes memory counters (n'.runTurns limit)) (hgoing : n.isDone = false)
    (hturn : Machine.turn.run n = (.ok (), n')) (hbusy : n'.isDone = true ∨ n'.isIdle = false) :
    Finishes memory (n'.control.counter :: counters) (n.runTurns (limit + 1)) := by
  have hbusy' : (!n'.isDone && n'.isIdle) = false := by
    rcases hbusy with h | h <;> simp [h]
  have hrun : n.runTurns (limit + 1) =
      ((n'.runTurns limit).1.after (Machine.glimpse n n'), (n'.runTurns limit).2) := by
    simp [Machine.runTurns, hgoing, hturn, hbusy']
  rw [hrun]
  exact {
    ending := hrest.ending
    turns := by simp [Report.after, hrest.turns]
    counter := by simp [Report.after, Machine.glimpse, hrest.counter]
    finished := hrest.finished
    memory := hrest.memory }

end Finishes

/-- The lines from `a` on are run one after another, and then the program ends. -/
theorem Executing.runTurns {m m' n : Machine} {a limit : Nat} {lines : List (List UInt8)}
    (h : Executing m n a lines) (hfits : ∀ line ∈ lines, FitsLine line)
    (hplain : ∀ line ∈ lines, Command.isPlainLine (CodePage.decode line) = true)
    (hrun : (lines.forM fun line => Command.runLine Hooks.failing (CodePage.decode line)).run m =
      (.ok (), m')) (hlimit : lines.length + 1 ≤ limit) :
    Finishes m'.memory (lineStarts a lines) (n.runTurns limit) := by
  induction lines generalizing m n a limit with
  | nil =>
    obtain ⟨k, rfl⟩ : ∃ k, limit = k + 1 := ⟨limit - 1, by simp at hlimit; omega⟩
    obtain ⟨n', hturn, hcounter, hfinished, hmemory⟩ := h.turn_end
    have hm : m = m' := (Prod.mk.inj hrun).2
    have hrest := @Finishes.of_finished n' k hfinished
    rw [hmemory, hm] at hrest
    rw [lineStarts, ← hcounter]
    exact hrest.turn h.going hturn (.inl (by simp [Machine.isDone, hfinished]))
  | cons line lines ih =>
    obtain ⟨k, rfl⟩ : ∃ k, limit = k + 1 := ⟨limit - 1, by simp at hlimit; omega⟩
    rw [List.forall_mem_cons] at hfits hplain
    obtain ⟨_, m₁, hfirst, hrest⟩ := Run.run_bind_eq_ok hrun
    obtain ⟨n', hturn, hcounter, hnext⟩ := h.turn_line hfits.1 hplain.1 hfirst
    have hlater := @ih m₁ n' _ k hnext hfits.2 hplain.2 hrest (by simp at hlimit; omega)
    rw [lineStarts, ← hcounter]
    exact hlater.turn h.going hturn (.inr (by simp [Machine.isIdle, hnext.running]))

/-- A machine that has done nothing yet and does not prompt at the end of a program. Its screen, keys,
disk, clock and console may be any. -/
structure Fresh (m : Machine) : Prop where
  memory : m.memory = Memory.fresh
  settings : m.settings = Settings.initial
  control : m.control = {}
  queue : m.queue = []
  running : m.running = false
  going : m.isDone = false
  noPrompt : m.debugger.promptOnExit = false

/-- The machine with the lines in its queue that load and start a program. -/
def queued (m : Machine) (name : Text) : Machine := ((Machine.queueProgram name).run m).2

namespace Fresh

variable {m : Machine} (h : Fresh m)
include h

theorem pending : m.control.pending = none := by rw [h.control]

theorem programSize : m.programSize = 0 := by
  rw [Machine.programSize, Machine.setting, h.settings]
  rfl

theorem queue_queued (name : Text) :
    (queued m name).queue = [includeLine name, gotoLine, startRequest] := by
  change m.queue ++ [includeLine name, gotoLine, startRequest] = _
  rw [h.queue, List.nil_append]

end Fresh

theorem memory_withProgram {m : Machine} {bytes : List UInt8} (h : m.memory = Memory.fresh)
    (hsize : bytes.length ≤ 32768) : (m.withProgram bytes).memory = Memory.fresh.write 32768 bytes := by
  have hinside : 32768 + bytes.length ≤ Memory.fresh.size := by
    simp only [Memory.fresh, Bank.replicate]
    omega
  rw [Machine.withProgram, h]
  exact Memory.writeData_inside hinside

theorem ends_withProgram {m : Machine} {bytes : List UInt8} (h : m.memory = Memory.fresh)
    (hsize : bytes.length ≤ 32768) : Memory.Ends (m.withProgram bytes).memory 32768 bytes := by
  rw [memory_withProgram h hsize]
  refine ⟨Bank.size_write .., by omega, fun k hk => ?_⟩
  rw [Bank.get_write, if_pos (by omega), Nat.add_sub_cancel_left, Memory.fresh, Bank.get_replicate]

/-- The machine has more to do and has not come to a line of the program yet. -/
structure Starting (n : Machine) : Prop where
  counter : n.control.counter = 0
  going : n.isDone = false
  busy : n.isIdle = false

/-- The lines in the queue bring the machine to the first line of the program. -/
theorem Fresh.start {m : Machine} {name : Text} {lines : List (List UInt8)} (h : Fresh m)
    (hfile : m.disk.Stores name (programOf lines)) (hsize : (programOf lines).length ≤ 32768) :
    ∃ n₁ n₂ n₃, Machine.turn.run (queued m name) = (.ok (), n₁) ∧
      Machine.turn.run n₁ = (.ok (), n₂) ∧ Machine.turn.run n₂ = (.ok (), n₃) ∧
      Starting n₁ ∧ Starting n₂ ∧ Starting n₃ ∧ Executing n₁ n₃ 32768 lines := by
  have hidle := h.pending
  obtain ⟨c₁, hinclude⟩ := @Machine.run_includeLine
    { m with queue := [gotoLine, startRequest] } name (programOf lines) hfile h.programSize
  have hturn₁ := (@Machine.turn_queued (queued m name) _ _ hidle (h.queue_queued name)).trans hinclude
  obtain ⟨c₂, hgoto⟩ := Machine.run_gotoLine { m.withProgram (programOf lines) with
    queue := [startRequest], console := c₁ }
  have hturn₂ := (@Machine.turn_queued { m.withProgram (programOf lines) with
    queue := [gotoLine, startRequest], console := c₁ } _ _ hidle rfl).trans hgoto
  have hturn₃ := (@Machine.turn_queued { m.withProgram (programOf lines) with
    queue := [startRequest], console := c₂, control := { m.control with next := programStart } }
    _ _ hidle rfl).trans (Machine.run_startRequest _)
  have hgoing : m.isDone = false := h.going
  have hcounter : m.control.counter = 0 := by rw [h.control]
  refine ⟨_, _, _, hturn₁, hturn₂, hturn₃, ⟨hcounter, hgoing, rfl⟩, ⟨hcounter, hgoing, rfl⟩,
    ⟨hcounter, hgoing, rfl⟩, ?_⟩
  exact {
    view := ⟨rfl, rfl, rfl⟩
    text := ends_withProgram h.memory hsize
    above := Nat.le_refl _
    queue := rfl
    running := rfl
    pending := hidle
    next := rfl
    going := hgoing
    noPrompt := h.noPrompt }

def loaded (m : Machine) (name : Text) : Machine := (Machine.turn.run (queued m name)).2

/-- Running a program of plain lines is running its lines one after another. If the lines run from where
the program is loaded without a fault and without the debugger, the machine takes three turns for its
queue, one for each line in order, and a last one that finds the end of the program, and it leaves the
memory that the lines leave. -/
theorem runTurns_eq_lines (m : Machine) (name : Text) (lines : List (List UInt8)) (limit : Nat)
    (hfresh : Fresh m) (hfile : m.disk.Stores name (programOf lines))
    (hsize : (programOf lines).length ≤ 32768) (hfits : ∀ line ∈ lines, FitsLine line)
    (hplain : ∀ line ∈ lines, Command.isPlainLine (CodePage.decode line) = true)
    (hruns : ((lines.forM fun line => Command.runLine Hooks.failing (CodePage.decode line)).run
      (loaded m name)).1 = .ok ()) (hlimit : lines.length + 4 ≤ limit) :
    ∃ last, (lines.forM fun line => Machine.runLine (CodePage.decode line)).run (loaded m name) =
        (.ok (), last) ∧
      Finishes last.memory ([0, 0, 0] ++ lineStarts 32768 lines) ((queued m name).runTurns limit) := by
  obtain ⟨n₁, n₂, n₃, hturn₁, hturn₂, hturn₃, h₁, h₂, h₃, hstart⟩ := hfresh.start hfile hsize
  have hloaded : loaded m name = n₁ := by rw [loaded, hturn₁]
  rw [hloaded] at hruns ⊢
  obtain ⟨m', hrun⟩ : ∃ m', (lines.forM fun line =>
      Command.runLine Hooks.failing (CodePage.decode line)).run n₁ = (.ok (), m') :=
    ⟨_, Prod.ext hruns rfl⟩
  -- The same lines with the debugger at hand, from the same machine.
  have halong : RunsAlong n₁ n₁ n₁ :=
    ⟨⟨rfl, rfl, rfl⟩, rfl, by rw [← hstart.view.memory]; exact hstart.text.size, fun _ _ => rfl⟩
  have hlines : ∀ line ∈ lines, Simulates (RunsAlong n₁)
      (Command.runLine Hooks.failing (CodePage.decode line)) (Machine.runLine (CodePage.decode line)) :=
    fun line hline => Command.simulates_runLine Debugger.hooks (hplain line hline)
  obtain ⟨last, hlast, hsame⟩ := Simulates.forM lines hlines n₁ n₁ halong () m' hrun
  refine ⟨last, hlast, ?_⟩
  obtain ⟨k, rfl⟩ : ∃ k, limit = k + 1 + 1 + 1 := ⟨limit - 3, by omega⟩
  have hrest := hstart.runTurns hfits hplain hrun (show lines.length + 1 ≤ k by omega)
  have hgoing : (queued m name).isDone = false := hfresh.going
  have hfinish := ((hrest.turn h₂.going hturn₃ (.inr h₃.busy)).turn h₁.going hturn₂
    (.inr h₂.busy)).turn hgoing hturn₁ (.inr h₁.busy)
  rwa [h₁.counter, h₂.counter, h₃.counter, ← hsame.memory] at hfinish

/-- A comment, a blank line, an assignment to a number, a label and an assignment to a text. -/
def sampleLines : List (List UInt8) :=
  ["REM a sample".toList, [], "A = 2 + 3 * A".toList, "again:".toList, "$1 = \"x\" + $2".toList].map
    CodePage.encode

def sample : Machine := { disk := {
  folder := { entries := [("my sample.bas".toList, .file (programOf sampleLines))] }
  names := [("my sample.bas".toList, "MYSAMPLE.BAS".toList)] } }

theorem runTurns_sample :
    ((sampleLines.forM fun line => Command.runLine Hooks.failing (CodePage.decode line)).run
        (loaded sample "MYSAMPLE.BAS".toList)).1 = .ok () ∧
      ∃ last, (sampleLines.forM fun line => Machine.runLine (CodePage.decode line)).run
          (loaded sample "MYSAMPLE.BAS".toList) = (.ok (), last) ∧
        Finishes last.memory [0, 0, 0, 32768, 32781, 32782, 32796, 32803, 32817]
          ((queued sample "MYSAMPLE.BAS".toList).runTurns 9) := by
  have hfile : sample.disk.Stores "MYSAMPLE.BAS".toList (programOf sampleLines) := by
    refine ⟨by decide +kernel, "my sample.bas".toList, rfl, ?_, rfl, fun _ _ => rfl⟩
    exact ⟨by decide, by decide, by decide, by decide, by decide, by decide⟩
  have hruns : ((sampleLines.forM fun line =>
      Command.runLine Hooks.failing (CodePage.decode line)).run
        (loaded sample "MYSAMPLE.BAS".toList)).1 = .ok () := by
    decide +kernel
  exact ⟨hruns, runTurns_eq_lines sample _ sampleLines 9 ⟨rfl, rfl, rfl, rfl, rfl, rfl, rfl⟩ hfile
    (by decide +kernel) (by decide +kernel) (by decide +kernel) hruns (by decide)⟩

end BasicMachine
