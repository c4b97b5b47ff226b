import BasicMachine.Proofs.LastLine

/-! Programs with and without a newline at their end, from the disk. Both are loaded in the same way, and at
their first line the machines differ in that newline alone. So the commands of the first run are a front of
those of the second one, and they are all of them exactly if the first run does not end at a command. -/
namespace BasicMachine

theorem getLast?_programOf (lines : List (List UInt8)) :
    programOf lines = [] ∨ (programOf lines).getLast? = some Memory.newline := by
  induction lines with
  | nil => exact .inl rfl
  | cons line rest ih =>
    right
    have hcons : programOf (line :: rest) = line ++ [Memory.newline] ++ programOf rest :=
      List.flatMap_cons
    rcases ih with hnil | hlast
    · rw [hcons, hnil, List.append_nil, List.getLast?_concat]
    · rw [hcons, List.getLast?_append, hlast, Option.some_or]

namespace Machine

theorem moments_turn {k k' : Machine} (hgoing : k.isDone = false) (hturn : turn.run k = (.ok (), k'))
    (hbusy : k'.isIdle = false) (n : Nat) : k.moments (n + 1) = Recording.turn.moments k ++ k'.moments n := by
  rw [moments_succ, hgoing, hturn, momentsAfter, hbusy, Bool.and_false]
  rfl

def going (k : Machine) (console : Console) : Machine :=
  { k with queue := [], running := true, control := { k.control with next := programStart }, console }

/-- The two lines behind the one that loads the program are noted, and then the run from its first line. -/
theorem run_going {k : Machine} (hgoing : k.isDone = false) (hpending : k.control.pending = none)
    (hqueue : k.queue = [gotoLine, startRequest]) :
    ∃ c : Console, c.input = k.console.input ∧ (turn.run (turn.run k).2).2 = k.going c ∧
      ∃ a b, ∀ n, k.moments n =
        [⟨a, .queued gotoLine⟩, ⟨b, .queued startRequest⟩].take n ++ (k.going c).moments (n - 2) := by
  have htokens : (Act.queued gotoLine).tokens? = some [.word "GOTO".toList, .word "PROGSTART".toList] := by
    decide +kernel
  obtain ⟨c, hinput, hrun⟩ := Act.run_execute htokens { k with queue := [startRequest] }
  let k₁ : Machine :=
    { k with queue := [startRequest], control := { k.control with next := programStart }, console := c }
  have hgoto : (runQueued gotoLine).run { k with queue := [startRequest] } = (.ok (), k₁) :=
    hrun.trans rfl
  obtain ⟨hnotes, hturn⟩ := (Goes.free hpending (.queued hqueue)).turn
  obtain ⟨hnotes₁, hturn₁⟩ := (@Goes.free k₁ _ _ hpending (.queued rfl)).turn
  rw [hgoto] at hturn
  rw [run_startRequest] at hturn₁
  refine ⟨c, hinput, ?_, { k with queue := [startRequest] }, { k₁ with queue := [] }, ?_⟩
  · rw [hturn, hturn₁]
    rfl
  · rintro (_ | _ | n)
    · rfl
    · rw [moments_turn hgoing hturn rfl, hnotes]
      rfl
    · rw [moments_turn hgoing hturn rfl, @moments_turn k₁ (k.going c) hgoing hturn₁ rfl, hnotes, hnotes₁,
        List.take_of_length_le (by simp)]
      rfl

end Machine

def started (m : Machine) (name : Text) : Machine :=
  (Machine.turn.run (Machine.turn.run (loaded m name)).2).2

namespace Fresh

variable {m : Machine} {name : Text} {bytes : List UInt8}

theorem run_loading (h : Fresh m) (hfile : m.disk.Stores name bytes) :
    ∃ c : Console, c.input = m.console.input ∧
      loaded m name = { m.withProgram bytes with queue := [gotoLine, startRequest], console := c } := by
  have htokens : (Act.queued (includeLine name)).tokens? =
      some [.word "INCLUDE".toList, .quote ('"' :: name ++ ['"'])] := by
    rw [Act.tokens?, parse_includeLine hfile.valid]
    · rfl
    · intro request heq
      cases heq
  obtain ⟨c, hinput, hrun⟩ := Act.run_execute htokens { m with queue := [gotoLine, startRequest] }
  have hinclude := @Machine.run_includeTokens
    { m with queue := [gotoLine, startRequest], console := c } name bytes hfile h.programSize
  refine ⟨c, hinput, ?_⟩
  rw [loaded, @Machine.turn_queued (queued m name) _ _ h.pending (h.queue_queued name)]
  exact congrArg Prod.snd (hrun.trans hinclude)

theorem run_starting (h : Fresh m) (hfile : m.disk.Stores name bytes) :
    ∃ c : Console, c.input = m.console.input ∧ started m name = (m.withProgram bytes).going c ∧
      ∃ a b, ∀ n, (loaded m name).moments n =
        [⟨a, .queued gotoLine⟩, ⟨b, .queued startRequest⟩].take n ++ (started m name).moments (n - 2) := by
  obtain ⟨c, hinput, hloaded⟩ := h.run_loading hfile
  obtain ⟨c', hinput', hstarted, hnotes⟩ := @Machine.run_going
    { m.withProgram bytes with queue := [gotoLine, startRequest], console := c } h.going h.pending rfl
  rw [← hloaded] at hstarted hnotes
  have hgoing : (loaded m name).going c' = (m.withProgram bytes).going c' := by rw [hloaded]; rfl
  rw [started, hstarted]
  exact ⟨c', hinput'.trans hinput, hgoing, hnotes⟩

/-- At their first lines, the programs differ in the newline behind the last line. -/
theorem twin {p t : List UInt8} {name' : Text} (h : Fresh m) (hsize : (p ++ t).length < 32768)
    (hfile : m.disk.Stores name (p ++ t)) (hfile' : m.disk.Stores name' (p ++ t ++ [Memory.newline]))
    (htyped : m.Types Blind) : Twin p t (started m name) (started m name') := by
  obtain ⟨c, hinput, hstarted, -⟩ := h.run_starting hfile
  obtain ⟨c', hinput', hstarted', -⟩ := h.run_starting hfile'
  rw [hstarted, hstarted']
  have hcounter : m.control.counter = 0 := by rw [h.control]
  have hlength : (p ++ t ++ [Memory.newline]).length ≤ 32768 := by
    rw [List.length_append, List.length_singleton]
    omega
  constructor
  · refine ⟨((m.withProgram (p ++ t ++ [Memory.newline])).going c').core, c'.printed, c'.logged, ?_, rfl⟩
    constructor
    · constructor
      · exact ends_withProgram h.memory (Nat.le_of_lt hsize)
      · exact ends_withProgram h.memory hlength
      · intro i hi
        change (m.withProgram _).memory.get i = (m.withProgram _).memory.get i
        rw [memory_withProgram h.memory hlength, memory_withProgram h.memory (Nat.le_of_lt hsize),
          Bank.get_write_outside (by omega), Bank.get_write_outside (by omega)]
    · exact congrArg (setNamed "prog_size".toList _) h.settings
    · exact congrArg (setNamed "prog_size".toList _) h.settings
    · rfl
    · exact hinput'.trans hinput.symm
    · exact htyped.of_input hinput
    · change Memory.searchStart _ m.control.counter < _
      rw [hcounter, Memory.searchStart, if_neg (by decide)]
      exact Nat.lt_add_right _ (by decide)
  · exact h.noPrompt
  · intro _
    refine ⟨h.pending, rfl, ?_⟩
    change _ ≤ Memory.searchStart _ programStart
    rw [Memory.searchStart, if_neg (by decide)]
    exact Nat.le_refl 32768

end Fresh

/-- The machine is about to look for the line at the address. -/
structure Machine.Seeks (k : Machine) (a : Int) : Prop where
  going : k.isDone = false
  pending : k.control.pending = none
  queue : k.queue = []
  running : k.running = true
  next : k.control.next = a

instance (k : Machine) (a : Int) : Decidable (k.Seeks a) :=
  decidable_of_iff (k.isDone = false ∧ k.control.pending = none ∧ k.queue = [] ∧ k.running = true ∧
    k.control.next = a)
    ⟨fun ⟨h₁, h₂, h₃, h₄, h₅⟩ => ⟨h₁, h₂, h₃, h₄, h₅⟩, fun h => ⟨h.1, h.2, h.3, h.4, h.5⟩⟩

namespace Twin

variable {p t : List UInt8} {k k' : Machine} (h : Twin p t k k') (ht : Memory.newline ∉ t)
include h ht

theorem nextProgramLine_last (hseeks : k.Seeks (32768 + p.length : Nat)) :
    ∃ k₁, Machine.nextProgramLine.run k = (.ok none, k₁) := by
  have hstart : k.memory.searchStart k.control.next = 32768 + p.length := by
    rw [hseeks.next, Memory.searchStart, if_neg (by omega), Int.toNat_natCast]
  cases Unended.fetches h.along ht with
  | same _ _ _ start => omega
  | last left => exact ⟨_, left⟩
  | none left => exact ⟨_, left⟩

theorem moments_last (hseeks : k.Seeks (32768 + p.length : Nat)) (n : Nat) :
    k.moments (n + 1) = [⟨k, .fetch⟩] := by
  obtain ⟨k₁, hend⟩ := h.nextProgramLine_last ht hseeks
  obtain ⟨hnotes, hturn⟩ :=
    (Machine.Goes.free hseeks.pending (.ended hseeks.queue hseeks.running hend)).turn
  rw [Machine.moments_succ, hseeks.going, hnotes, hturn,
    Machine.momentsAfter_of_finished (Machine.finished_of_end h.noPrompt hend)]
  rfl

theorem leavesOut_last (hseeks : k.Seeks (32768 + p.length : Nat)) {line : Text} {tokens : List Token}
    (hline : (Machine.nextProgramLine.run k').1 = .ok (some line)) (hparse : Token.parse line = .ok tokens)
    (hcommand : (Command.commandOf? tokens).isSome = true) :
    Moment.LeavesOut ⟨k, .fetch⟩ tokens := by
  obtain ⟨k₁, hend⟩ := h.nextProgramLine_last ht hseeks
  refine ⟨rfl, line, ?_, hparse, hcommand⟩
  rw [Machine.unendedLine?, hend, Unended.fst_completed h.along, hline]
  rfl

theorem after_turn (hp : p = [] ∨ p.getLast? = some Memory.newline)
    (hblind : ∀ q ∈ Recording.turn.moments k, ∀ tokens ∈ q.act.tokens?, Blind tokens)
    (hgoing : (Machine.turn.run k).2.isDone = false) :
    Twin p t (Machine.turn.run k).2 (Machine.turn.run k').2 := by
  cases h.turn ht hp hblind with
  | stop finished => simp [Machine.isDone, finished] at hgoing
  | step _ _ _ twin => exact twin

/-- A run that comes to the last line in its next turn. -/
theorem moments_turn_last (hp : p = [] ∨ p.getLast? = some Memory.newline)
    (hblind : ∀ q ∈ Recording.turn.moments k, ∀ tokens ∈ q.act.tokens?, Blind tokens)
    (hgoing : k.isDone = false) (hturn : (Machine.turn.run k).1 = .ok ())
    (hseeks : (Machine.turn.run k).2.Seeks (32768 + p.length : Nat)) (n : Nat) :
    k.moments (n + 2) = k.moments 1 ++ [⟨(Machine.turn.run k).2, .fetch⟩] := by
  have hbusy : (Machine.turn.run k).2.isIdle = false := by simp [Machine.isIdle, hseeks.running]
  have hmoments := Machine.moments_turn hgoing (Prod.ext hturn rfl) hbusy
  have htwin := h.after_turn ht hp hblind hseeks.going
  rw [hmoments, hmoments, htwin.moments_last ht hseeks]
  simp [Machine.moments, Machine.recordTurns]

end Twin

theorem compares_loaded {m : Machine} {p t : List UInt8} {name name' : Text} (hfresh : Fresh m)
    (ht : Memory.newline ∉ t) (hp : p = [] ∨ p.getLast? = some Memory.newline)
    (hsize : (p ++ t).length < 32768) (hfile : m.disk.Stores name (p ++ t))
    (hfile' : m.disk.Stores name' (p ++ t ++ [Memory.newline])) (htyped : m.Types Blind) {n : Nat}
    (hblind : ∀ q ∈ (loaded m name).moments n, ∀ tokens ∈ q.act.tokens?, Blind tokens) :
    Compares ((loaded m name).moments n) ((loaded m name').moments n) := by
  have htwin := hfresh.twin hsize hfile hfile' htyped
  obtain ⟨-, -, -, a, b, hnotes⟩ := hfresh.run_starting hfile
  obtain ⟨-, -, -, a', b', hnotes'⟩ := hfresh.run_starting hfile'
  rw [hnotes] at hblind ⊢
  rw [hnotes']
  apply Compares.append
  · match n with
    | 0 | 1 => rfl
    | n + 2 => rw [List.take_of_length_le (by simp), List.take_of_length_le (by simp)]; rfl
  · intro q hq
    have hq := List.mem_of_mem_take hq
    apply not_leavesOut
    intro hact
    simp only [List.mem_cons, List.not_mem_nil, or_false] at hq
    rcases hq with rfl | rfl <;> cases hact
  · exact htwin.compares ht hp fun q hq => hblind q (List.mem_append_right _ hq)

/-- A program without a newline behind its last line `t` runs as with one, up to the point where it ends at
that line: both execute the same commands, unless the first one comes to a line without a newline that has
a command, and then the second one executes that command too, behind all those of the first. This is so as
long as the run does not look at the memory as such and does not load or save, and it is so at every length
of the run, wherever the program jumps. -/
theorem executes_last_line_iff (m : Machine) (name name' : Text) (lines : List (List UInt8))
    (t : List UInt8) (n : Nat) (hfresh : Fresh m) (ht : Memory.newline ∉ t)
    (hsize : (programOf lines ++ t).length < 32768) (hfile : m.disk.Stores name (programOf lines ++ t))
    (hfile' : m.disk.Stores name' (programOf lines ++ t ++ [Memory.newline])) (htyped : m.Types Blind)
    (hblind : ∀ q ∈ (loaded m name).moments n, ∀ tokens ∈ q.act.tokens?, Blind tokens) :
    (executed ((loaded m name).moments n) = executed ((loaded m name').moments n) ↔
      ∀ q ∈ (loaded m name).moments n, ∀ tokens, ¬q.LeavesOut tokens) ∧
    ∀ q ∈ (loaded m name).moments n, ∀ tokens, q.LeavesOut tokens →
      executed ((loaded m name).moments n) ++ [tokens] <+: executed ((loaded m name').moments n) := by
  have hcompares :=
    compares_loaded hfresh ht (getLast?_programOf lines) hsize hfile hfile' htyped hblind
  refine ⟨hcompares.executed_eq_iff, ?_⟩
  intro q hq tokens hout
  cases hcompares with
  | same _ hnone => exact absurd hout (hnone q hq tokens)
  | more _ _ honly hexecuted =>
    obtain rfl := honly q hq tokens hout
    rw [hexecuted, List.prefix_append_right_inj]
    exact ⟨_, rfl⟩

/-- An assignment on a line of its own, and one behind it that has no newline. -/
def firstLine : List UInt8 := CodePage.encode "A = 1".toList

def lastLine : List UInt8 := CodePage.encode "B = 2".toList

/-- A machine whose disk has the two lines twice, the second time with a newline at the end. -/
def bothFiles : Machine := { disk := {
  folder := { entries := [
    ("PART.BAS".toList, .file (programOf [firstLine] ++ lastLine)),
    ("WHOLE.BAS".toList, .file (programOf [firstLine] ++ lastLine ++ [Memory.newline]))] }
  names := [("PART.BAS".toList, "PART.BAS".toList), ("WHOLE.BAS".toList, "WHOLE.BAS".toList)] } }

theorem stores_part : bothFiles.disk.Stores "PART.BAS".toList (programOf [firstLine] ++ lastLine) := by
  refine ⟨by decide +kernel, "PART.BAS".toList, rfl, ?_, rfl, fun _ _ => rfl⟩
  exact ⟨by decide, by decide, by decide, by decide, by decide, by decide⟩

theorem stores_whole : bothFiles.disk.Stores "WHOLE.BAS".toList
    (programOf [firstLine] ++ lastLine ++ [Memory.newline]) := by
  refine ⟨by decide +kernel, "WHOLE.BAS".toList, rfl, ?_, rfl, fun _ _ => rfl⟩
  exact ⟨by decide, by decide, by decide, by decide, by decide, by decide⟩

theorem fresh_bothFiles : Fresh bothFiles := ⟨rfl, rfl, rfl, rfl, rfl, rfl, rfl⟩

theorem types_bothFiles : bothFiles.Types Blind := by
  intro line hline
  cases hline

theorem seeks_second : (started bothFiles "PART.BAS".toList).isDone = false ∧
    (Machine.turn.run (started bothFiles "PART.BAS".toList)).1 = .ok () ∧
    (Machine.turn.run (started bothFiles "PART.BAS".toList)).2.Seeks
      (32768 + (programOf [firstLine]).length : Nat) := by
  decide +kernel

theorem blind_first : ∀ q ∈ Recording.turn.moments (started bothFiles "PART.BAS".toList),
    ∀ tokens ∈ q.act.tokens?, Blind tokens := by
  decide +kernel

theorem twin_first : Twin (programOf [firstLine]) lastLine (started bothFiles "PART.BAS".toList)
    (started bothFiles "WHOLE.BAS".toList) :=
  fresh_bothFiles.twin (by decide) stores_part stores_whole types_bothFiles

theorem moments_part : (loaded bothFiles "PART.BAS".toList).moments 4 =
    (loaded bothFiles "PART.BAS".toList).moments 3 ++
      [⟨(Machine.turn.run (started bothFiles "PART.BAS".toList)).2, .fetch⟩] := by
  obtain ⟨hgoing, hturn, hseeks⟩ := seeks_second
  have hlast := twin_first.moments_turn_last (by decide) (getLast?_programOf _) blind_first hgoing hturn
    hseeks 0
  obtain ⟨-, -, -, a, b, hnotes⟩ := fresh_bothFiles.run_starting stores_part
  rw [hnotes, hnotes, hlast]
  exact (List.append_assoc _ _ _).symm

theorem blind_part : ∀ q ∈ (loaded bothFiles "PART.BAS".toList).moments 4, ∀ tokens ∈ q.act.tokens?,
    Blind tokens := by
  have hblind : ∀ q ∈ (loaded bothFiles "PART.BAS".toList).moments 3, ∀ tokens ∈ q.act.tokens?,
      Blind tokens := by
    decide +kernel
  rw [moments_part, List.forall_mem_append]
  refine ⟨hblind, ?_⟩
  simp [Act.tokens?]

theorem leavesOut_part :
    Moment.LeavesOut ⟨(Machine.turn.run (started bothFiles "PART.BAS".toList)).2, .fetch⟩
      [.numericVar "B".toList, .symbol "=".toList, .number 2] := by
  obtain ⟨-, -, hseeks⟩ := seeks_second
  have htwin := twin_first.after_turn (by decide) (getLast?_programOf _) blind_first hseeks.going
  have hline : (Machine.nextProgramLine.run
      (Machine.turn.run (started bothFiles "WHOLE.BAS".toList)).2).1 = .ok (some "B = 2".toList) := by
    decide +kernel
  exact htwin.leavesOut_last (by decide) hseeks hline (by decide +kernel) rfl

theorem mem_moments_part : ⟨(Machine.turn.run (started bothFiles "PART.BAS".toList)).2, .fetch⟩ ∈
    (loaded bothFiles "PART.BAS".toList).moments 4 := by
  rw [moments_part]
  exact List.mem_append_right _ (List.mem_singleton.mpr rfl)

theorem executes_last_line_part :
    executed ((loaded bothFiles "PART.BAS".toList).moments 4) ++
        [[.numericVar "B".toList, .symbol "=".toList, .number 2]] <+:
      executed ((loaded bothFiles "WHOLE.BAS".toList).moments 4) := by
  have hruns := executes_last_line_iff bothFiles "PART.BAS".toList "WHOLE.BAS".toList [firstLine]
    lastLine 4 fresh_bothFiles (by decide) (by decide) stores_part stores_whole types_bothFiles blind_part
  exact hruns.2 _ mem_moments_part _ leavesOut_part

/-- The assignment on the last line is executed if a newline follows it, and not executed otherwise. -/
theorem last_line_left_out : executed ((loaded bothFiles "PART.BAS".toList).moments 4) ≠
    executed ((loaded bothFiles "WHOLE.BAS".toList).moments 4) := by
  have hcompares := compares_loaded fresh_bothFiles (by decide) (getLast?_programOf _) (by decide)
    stores_part stores_whole types_bothFiles blind_part
  intro hsame
  exact hcompares.executed_eq_iff.mp hsame _ mem_moments_part _ leavesOut_part

end BasicMachine
