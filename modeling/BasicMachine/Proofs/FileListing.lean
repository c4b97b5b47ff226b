import BasicMachine.Proofs.NameStability
import BasicMachine.Proofs.ScreenOperations
import BasicMachine.Proofs.Tracking

/-! The listing of the files. `FILES` prints the short names in rows of five, each name in fifteen columns, but
stops in front of a row that is not full. So the files of the last row are missing unless their number is a
multiple of five; all others are shown once, in the order of the table. -/
namespace BasicMachine

namespace Listing

/-- The names in rows of five. The last row has what is left over. -/
def fives (names : List Text) : List (List Text) :=
  (List.range ((names.length + 4) / 5)).map fun i => (names.drop (5 * i)).take 5

/-- A row with every name in fifteen columns, and the end of the line. -/
def row (names : List Text) : Text := names.flatMap (Text.padRight 15) ++ ['\n']

def table (names : List Text) : Text := (fives names).flatMap row

def inFullRows (names : List Text) : List Text := names.take (5 * (names.length / 5))

/-- Full rows do not change with what stands behind them. -/
theorem fives_append {full : List Text} (h : 5 ∣ full.length) (rest : List Text) :
    fives (full ++ rest) = fives full ++ fives rest := by
  obtain ⟨k, hk⟩ := h
  have hfull : (full.length + 4) / 5 = k := by omega
  have hall : ((full ++ rest).length + 4) / 5 = k + (rest.length + 4) / 5 := by
    rw [List.length_append]
    omega
  rw [fives, fives, fives, hall, hfull, List.range_add, List.map_append, List.map_map]
  congr 1
  · apply List.map_congr_left
    intro i hi
    have hlt := List.mem_range.mp hi
    rw [List.drop_append_of_le_length (by omega), List.take_append_of_le_length]
    rw [List.length_drop]
    omega
  · apply List.map_congr_left
    intro i _
    have hpast : 5 * (k + i) = full.length + 5 * i := by omega
    rw [Function.comp, hpast, List.drop_length_add_append]

theorem table_append {full : List Text} (h : 5 ∣ full.length) (rest : List Text) :
    table (full ++ rest) = table full ++ table rest := by
  rw [table, fives_append h, List.flatMap_append, table, table]

theorem table_eq_row {names : List Text} (hne : names ≠ []) (h : names.length ≤ 5) :
    table names = row names := by
  have hpos := List.length_pos_iff.mpr hne
  have hone : (names.length + 4) / 5 = 1 := by omega
  simp [table, fives, hone, List.range_succ, List.take_of_length_le h]

section FullRows

variable (names : List Text)

theorem length_inFullRows : (inFullRows names).length = 5 * (names.length / 5) := by
  rw [inFullRows, List.length_take]
  omega

theorem inFullRows_eq_self_iff : inFullRows names = names ↔ 5 ∣ names.length := by
  have hlength := length_inFullRows names
  constructor
  · intro heq
    rw [heq] at hlength
    omega
  · intro hdvd
    exact List.take_of_length_le (by omega)

/-- What is left over makes the table longer. -/
theorem table_inFullRows_eq_iff : table (inFullRows names) = table names ↔ 5 ∣ names.length := by
  constructor
  · intro heq
    by_contra hdvd
    have hfull : 5 ∣ (inFullRows names).length := ⟨_, length_inFullRows names⟩
    have hsplit : table names = table (inFullRows names) ++ table (names.drop (5 * (names.length / 5))) := by
      rw [← table_append hfull, inFullRows, List.take_append_drop]
    have hne : names.drop (5 * (names.length / 5)) ≠ [] := by
      rw [← List.length_pos_iff, List.length_drop]
      omega
    have hshort : (names.drop (5 * (names.length / 5))).length ≤ 5 := by
      rw [List.length_drop]
      omega
    have hnil : table (names.drop (5 * (names.length / 5))) = [] :=
      List.self_eq_append_right.mp (heq.trans hsplit)
    simp [table_eq_row hne hshort, row] at hnil
  · intro hdvd
    rw [(inFullRows_eq_self_iff names).mpr hdvd]

theorem count_inFullRows_iff (hnames : names.Nodup) :
    (∀ name ∈ names, (inFullRows names).count name = 1) ↔ 5 ∣ names.length := by
  constructor
  · intro hcount
    have hsubset : names ⊆ inFullRows names := by
      intro name hname
      rw [← List.count_pos_iff, hcount name hname]
      decide
    have hle := (hnames.subperm hsubset).length_le
    rw [length_inFullRows] at hle
    omega
  · intro hdvd
    rw [(inFullRows_eq_self_iff names).mpr hdvd]
    exact fun name hname => List.count_eq_one_of_mem hnames hname

theorem inFullRows_append {full : List Text} (h : full.length = 5) (rest : List Text) :
    inFullRows (full ++ rest) = full ++ inFullRows rest := by
  have hrows : 5 * ((full ++ rest).length / 5) = full.length + 5 * (rest.length / 5) := by
    rw [List.length_append, h]
    omega
  rw [inFullRows, hrows, List.take_length_add_append, inFullRows]

end FullRows

end Listing

theorem ShortName.IsShort.length_le {t : Text} (h : IsShort t) : t.length ≤ 12 := by
  obtain ⟨stem, ext, rfl, hshape⟩ := h
  have hstem := hshape.length
  rw [List.length_append]
  rcases hshape.extension with rfl | ⟨after, rfl, -, hafter, -⟩
  · simp
    omega
  · simp
    omega

namespace Screen

theorem print_append (s : Screen) (t u : Text) (p : ColourPair) :
    s.print (t ++ u) p = (s.print t p).print u p := List.foldl_append

end Screen

namespace Machine

def entry (level : LogLevel) (kind t : Text) : LogEntry := ⟨level, kind ++ ": ".toList ++ t⟩

theorem log_report (level : LogLevel) (kind t : Text) (m : Machine) :
    ((report level kind t).run m).2.console.log =
      m.console.log ++ if m.debugger.enabled then [entry level kind t] else [] := by
  simp only [report, record, typeLine, type, Run.run_bind, Run.run_get]
  split <;> split <;> simp [Console.log, entry, Run.run_bind]

theorem run_report_logged (level : LogLevel) (kind t : Text) (m : Machine) :
    ∃ c : Console, (report level kind t).run m = (.ok (), { m with console := c }) ∧
      c.log = m.console.log ++ (if m.debugger.enabled then [entry level kind t] else []) ∧
      c.input = m.console.input := by
  obtain ⟨c, hrun⟩ := run_report level kind t m
  have hlog := log_report level kind t m
  have hinput := input_report level kind t m
  rw [hrun] at hlog hinput
  exact ⟨c, hrun, hlog, hinput⟩

/-- The texts were printed one after another. The text `written` is on the screen, each print is in the log if
there is one, and nothing else has changed but the memory of the last print. -/
structure Printed (m n : Machine) (texts : List Text) (written : Text) : Prop where
  screen : n.screen = m.screen.print written m.screen.colour
  log : n.console.log =
    m.console.log ++ if m.debugger.enabled then texts.map (entry .debug "PRINT".toList) else []
  input : n.console.input = m.console.input
  others : n = { m with
    screen := n.screen
    console := n.console
    debugger := { m.debugger with lastPrint := n.debugger.lastPrint } }

theorem Printed.trans {m n k : Machine} {ts us : List Text} {t u : Text} (h : Printed m n ts t)
    (h' : Printed n k us u) : Printed m k (ts ++ us) (t ++ u) := by
  have hdebugger : n.debugger.enabled = m.debugger.enabled := by rw [h.others]
  refine ⟨?_, ?_, h'.input.trans h.input, ?_⟩
  · rw [h'.screen, h.screen, (Screen.Drawn.print ..).colour, Screen.print_append]
  · rw [h'.log, h.log, hdebugger]
    split <;> simp
  · rw [h'.others, h.others]

/-- The step prints the texts, wherever it is taken. -/
def Printing (x : Action Unit) (texts : List Text) (written : Text) : Prop :=
  ∀ m, ∃ n, x.run m = (.ok (), n) ∧ Printed m n texts written

namespace Printing

protected theorem pure : Printing (pure ()) [] [] := fun m => ⟨m, rfl, rfl, by simp, rfl, rfl⟩

protected theorem bind {x : Action Unit} {f : Unit → Action Unit} {ts us : List Text} {t u : Text}
    (hx : Printing x ts t) (hf : ∀ v, Printing (f v) us u) : Printing (x >>= f) (ts ++ us) (t ++ u) := by
  intro m
  obtain ⟨n, hrun, hprinted⟩ := hx m
  obtain ⟨k, hrun', hprinted'⟩ := hf () n
  exact ⟨k, (Run.run_bind_ok hrun).trans hrun', hprinted.trans hprinted'⟩

theorem newline : Printing Machine.newline [] ['\n'] := fun _ => ⟨_, rfl, rfl, by simp, rfl, rfl⟩

theorem typeLine (t : Text) : Printing (Machine.typeLine t) [] [] :=
  fun _ => ⟨_, rfl, rfl, by simp [Console.log], rfl, rfl⟩

theorem logPrint (t : Text) : Printing (Machine.logPrint t) [t] [] := by
  have hlog : Printing (do
      Machine.debug "PRINT".toList t
      changeDebugger fun d => { d with lastPrint := t }) [t] [] := by
    intro m
    obtain ⟨c, hrun, hentry, hinput⟩ := run_report_logged .debug "PRINT".toList t m
    exact ⟨_, Run.run_bind_ok hrun, rfl, hentry, hinput, rfl⟩
  intro m
  cases hshow : m.debugger.showPrints with
  | false =>
    obtain ⟨n, hrun, hn⟩ := hlog m
    refine ⟨n, ?_, hn⟩
    rw [← hrun, Machine.logPrint, Run.run_bind, Run.run_get]
    dsimp only
    rw [hshow, if_neg (by decide)]
  | true =>
    obtain ⟨n, hrun, hn⟩ := (typeLine ("PRINT: \"".toList ++ t ++ ['"'])).bind (fun _ => hlog) m
    refine ⟨n, ?_, hn⟩
    rw [← hrun, Machine.logPrint, Run.run_bind, Run.run_get]
    dsimp only
    rw [hshow, if_pos rfl]

theorem print (t : Text) : Printing (Machine.print t) [t] t :=
  (logPrint t).bind fun _ _ => ⟨_, rfl, rfl, by simp, rfl, rfl⟩

theorem forM {f : Text → Action Unit} {g : Text → Text} (h : ∀ t, Printing (f t) [g t] (g t))
    (ts : List Text) : Printing (ts.forM f) (ts.map g) (ts.flatMap g) := by
  induction ts with
  | nil => exact .pure
  | cons t ts ih => exact (h t).bind fun _ => ih

end Printing

open Listing

/-- The rows that are full are printed, a name at a time. -/
theorem printing_printRows (names : List Text) :
    Printing (Command.printRows names) ((inFullRows names).map (Text.padRight 15))
      (table (inFullRows names)) := by
  fun_induction Command.printRows names with
  | case1 a b c d e rest ih =>
    have hrow := (Printing.forM (fun t => Printing.print (Text.padRight 15 t)) [a, b, c, d, e]).bind
      fun _ => Printing.newline.bind fun _ => ih
    have hnames : inFullRows ([a, b, c, d, e] ++ rest) = [a, b, c, d, e] ++ inFullRows rest :=
      inFullRows_append rfl rest
    rw [List.cons_append, List.cons_append, List.cons_append, List.cons_append, List.cons_append,
      List.nil_append] at hnames
    rw [hnames, table_append (by simp), table_eq_row (by simp) (by simp), row, List.map_append,
      List.append_assoc]
    exact hrow
  | case2 names hshort =>
    have hlt : names.length < 5 := by
      rcases names with _ | ⟨a, _ | ⟨b, _ | ⟨c, _ | ⟨d, _ | ⟨e, rest⟩⟩⟩⟩⟩
      case cons.cons.cons.cons.cons => exact (hshort a b c d e rest rfl).elim
      all_goals simp
    have hnone : inFullRows names = [] := by
      rw [← List.length_eq_zero_iff, length_inFullRows]
      omega
    rw [hnone]
    exact .pure

/-- `FILES` showed the names, in this order and no others. They are a table on the screen, in its colour, and
if there is a log then the command and each of the names are in it. -/
structure ListsFiles (m n : Machine) (names : List Text) : Prop where
  screen : n.screen = m.screen.print (table names) m.screen.colour
  log : n.console.log = m.console.log ++ if m.debugger.enabled then
    entry .debug "COMMAND".toList "Running command: \"FILES\"".toList ::
      names.map fun name => entry .debug "PRINT".toList (Text.padRight 15 name) else []
  input : n.console.input = m.console.input
  others : n = { m with
    screen := n.screen
    console := n.console
    debugger := { m.debugger with lastPrint := n.debugger.lastPrint } }

theorem run_files (m : Machine) : ∃ n, (runLine "FILES".toList).run m = (.ok (), n) ∧
    ListsFiles m n (inFullRows m.disk.shortNames) := by
  have hparse : Token.parse "FILES".toList = .ok [.word "FILES".toList] := by decide +kernel
  have hname : Command.ofName? (upper "FILES".toList) = some .files := by decide +kernel
  obtain ⟨c, hlogged, hentry, hinput⟩ := run_report_logged .debug "COMMAND".toList
    ("Running command: \"".toList ++ "FILES".toList ++ ['"']) m
  obtain ⟨n, hrows, hprinted⟩ := printing_printRows m.disk.shortNames { m with console := c }
  have hroutine : (Command.files.routine Debugger.hooks).run
      ⟨{ m with console := c }, ⟨[.word "FILES".toList], 1⟩⟩ = (.ok (), ⟨n, ⟨[.word "FILES".toList], 1⟩⟩) := by
    change Command.runFiles.run _ = _
    rw [Command.runFiles, Run.run_bind_ok (Run.run_get _), Call.run_liftM]
    dsimp only
    rw [hrows]
  have hrun : (runLine "FILES".toList).run m = (.ok (), n) := by
    rw [runLine, Command.runLine, logCommand, debug, Run.run_bind_ok hlogged, hparse]
    exact Command.run_withArguments ((Command.run_dispatch_command _ _ hname _).trans hroutine)
  refine ⟨n, hrun, hprinted.screen, ?_, hprinted.input.trans hinput, hprinted.others⟩
  rw [hprinted.log]
  dsimp only
  rw [hentry, List.append_assoc]
  split
  · rw [List.map_map]
    rfl
  · rfl

theorem ListsFiles.length_eq {m n : Machine} {names others : List Text} (h : ListsFiles m n names)
    (h' : ListsFiles m n others) (hlog : m.debugger.enabled = true) : names.length = others.length := by
  have hlengths := congrArg List.length (h.log.symm.trans h'.log)
  simpa [hlog] using hlengths

/-- What is shown of the names, and that it is all of them exactly if their number is a multiple of five: as
names, as text on the screen, and by the log if there is one. If the table is up to date, every name is then
shown once, and none is wider than its columns. -/
structure FilesDecided (m n : Machine) (names : List Text) : Prop where
  shown : ListsFiles m n (inFullRows names)
  all : inFullRows names = names ↔ 5 ∣ names.length
  written : table (inFullRows names) = table names ↔ 5 ∣ names.length
  logged : m.debugger.enabled = true → (ListsFiles m n names ↔ 5 ∣ names.length)
  once : m.disk.UpToDate → ((∀ name ∈ names, (inFullRows names).count name = 1) ↔ 5 ∣ names.length)
  wide : m.disk.UpToDate → ∀ name ∈ names, (Text.padRight 15 name).length = 15

/-- `FILES` shows all files exactly if their number is a multiple of five, and else those of the full rows. -/
theorem files_shows_all_iff (m : Machine) : ∃ n, (runLine "FILES".toList).run m = (.ok (), n) ∧
    FilesDecided m n m.disk.shortNames := by
  obtain ⟨n, hrun, hshown⟩ := run_files m
  have hall := inFullRows_eq_self_iff m.disk.shortNames
  refine ⟨n, hrun, hshown, hall, table_inFullRows_eq_iff _, ?_, ?_, ?_⟩
  · intro hlog
    constructor
    · intro hlisted
      have hlength := hlisted.length_eq hshown hlog
      rw [length_inFullRows] at hlength
      omega
    · intro hdvd
      rwa [hall.mpr hdvd] at hshown
  · intro htable
    exact count_inFullRows_iff _ (ShortName.assign_nodup htable.assign).1
  · intro htable name hname
    obtain ⟨e, he, rfl⟩ := List.mem_map.mp hname
    have hshort := (ShortName.isShort_of_assign htable.assign e he).length_le
    rw [Text.length_padRight]
    omega

/-- A disk with a single file. -/
def oneFile : Machine :=
  { disk := { folder := { entries := [("A.TXT".toList, .file [120])] },
              names := [("A.TXT".toList, "A.TXT".toList)] } }

/-- The only file of a disk is not shown. -/
theorem files_hides_single :
    oneFile.disk.UpToDate ∧ oneFile.disk.shortNames = ["A.TXT".toList] ∧
      ∃ n, (runLine "FILES".toList).run oneFile = (.ok (), n) ∧ n.screen = oneFile.screen ∧
        ¬n.screen = oneFile.screen.print (table ["A.TXT".toList]) oneFile.screen.colour := by
  have htable : oneFile.disk.UpToDate := by decide +kernel
  obtain ⟨n, hrun, hshown⟩ := run_files oneFile
  have hscreen : n.screen = oneFile.screen := hshown.screen
  refine ⟨htable, rfl, n, hrun, hscreen, fun hprinted => ?_⟩
  have hrow : (oneFile.screen.print (table ["A.TXT".toList]) oneFile.screen.colour).cursor.row = 1 := by
    decide +kernel
  rw [← hprinted, hscreen] at hrow
  exact absurd hrow (by decide)

end Machine
end BasicMachine
