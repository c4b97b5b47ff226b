import BasicMachine.Proofs.MemorySize
import BasicMachine.Proofs.RenameSafety

/-! What the commands for files report. A fault of the disk is to be told in `R` and not to end the program.
Four of the five commands have a code for every fault of the disk, but `SIZE` has one for a missing file only, so
the fault goes through when the host refuses to look for the file or to tell its size. And `SAVE` answers zero
for a file that it did not save, because it was there already. -/
namespace BasicMachine

theorem Fault.isAbsence_of_isMissingFile {e : Fault} (h : e.isMissingFile = true) : e.isAbsence = true := by
  cases e <;> simp [isMissingFile, isAbsence] at h ⊢

theorem Fault.isDiskFault_of_isMissingFile {e : Fault} (h : e.isMissingFile = true) :
    e.isDiskFault = true := by
  cases e <;> simp [isMissingFile, isDiskFault] at h ⊢

namespace Disk

variable {d : Disk} {name : Text} {e : Fault}

/-- The host refuses to say whether there is anything under the name, or how long it is, for another reason than
that the file is missing. -/
inductive SizeRefused (d : Disk) (name : Text) : Fault → Prop
  | unseen {e : Fault} (refused : d.host.exists? d.folder (d.path name) = .error e) : SizeRefused d name e
  | unmeasured {r : Refusal} (seen : d.host.exists? d.folder (d.path name) = .ok true)
      (refused : d.host.refuses d.folder .measure (d.path name) = some r)
      (there : r.fault.isMissingFile = false) : SizeRefused d name r.fault

theorem lookup_of_exists? (h : d.host.exists? d.folder (d.path name) = .ok true) :
    ∃ found, d.host.lookup d.folder (d.path name) = .ok (some found) := by
  obtain ⟨found, hlook, hfound⟩ := bind_eq_ok_iff.mp h
  cases found with
  | none => cases hfound
  | some found => exact ⟨found, hlook⟩

theorem lookup_eq_error_of_exists? (h : d.host.exists? d.folder (d.path name) = .error e) :
    e.isDiskFault = true ∧ e.isAbsence = false := by
  rcases bind_eq_error_iff.mp h with hlook | ⟨found, -, hfound⟩
  · exact Host.lookup_eq_error hlook
  · cases hfound

namespace SizeRefused

theorem not_missing (h : d.SizeRefused name e) : e.isMissingFile = false := by
  cases h with
  | unseen hrefused =>
    by_contra hmissing
    have habsent := Fault.isAbsence_of_isMissingFile (by simpa using hmissing)
    rw [(lookup_eq_error_of_exists? hrefused).2] at habsent
    cases habsent
  | unmeasured _ _ hthere => exact hthere

theorem isDiskFault (h : d.SizeRefused name e) : e.isDiskFault = true := by
  cases h with
  | unseen hrefused => exact (lookup_eq_error_of_exists? hrefused).1
  | @unmeasured r _ _ _ => exact r.isDiskFault

theorem size (h : d.SizeRefused name e) : d.size name = .error e := by
  cases h with
  | unseen hrefused =>
    rw [Disk.size, existingPath, hrefused]
    rfl
  | @unmeasured r hseen hrefused _ =>
    obtain ⟨found, hlook⟩ := lookup_of_exists? hseen
    obtain ⟨spot, hspot, -⟩ := Host.lookup_eq_some_iff.mp hlook
    obtain ⟨hnull, -⟩ := Host.reach_eq_ok_iff.mp hspot
    rw [Disk.size, existingPath, hseen]
    change d.host.size d.folder (d.path name) = .error r.fault
    simp [Host.size, Host.reach, hnull, hrefused, bind, Except.bind]

end SizeRefused

/-- The size of a file is not told because there is none, or because the host refuses to tell. -/
theorem size_eq_error (h : d.size name = .error e) : e.isMissingFile = true ∨ d.SizeRefused name e := by
  rcases bind_eq_error_iff.mp h with hpath | ⟨path, hpath, hsize⟩
  · rcases bind_eq_error_iff.mp hpath with hthere | ⟨there, -, hmissing⟩
    · exact .inr (.unseen hthere)
    · cases there with
      | true => cases hmissing
      | false => exact .inl (Except.error.inj hmissing ▸ rfl)
  · obtain ⟨rfl, found, hfound⟩ := existingPath_eq_ok hpath
    obtain ⟨r, hrefused, rfl⟩ := Host.size_eq_error hfound hsize
    have hseen : d.host.exists? d.folder (d.path name) = .ok true := by
      rw [Host.exists?, hfound]
      rfl
    cases hmissing : r.fault.isMissingFile with
    | true => exact .inl rfl
    | false => exact .inr (.unmeasured hseen hrefused hmissing)

theorem size_isDiskFault (h : d.size name = .error e) : e.isDiskFault = true := by
  rcases size_eq_error h with hmissing | hrefused
  · exact Fault.isDiskFault_of_isMissingFile hmissing
  · exact hrefused.isDiskFault

theorem load_eq_error (h : d.load name = .error e) : e.isDiskFault = true := by
  rcases bind_eq_error_iff.mp h with hpath | ⟨path, hpath, hread⟩
  · exact existingPath_eq_error hpath
  · obtain ⟨rfl, found, hfound⟩ := existingPath_eq_ok hpath
    exact Host.read_eq_error hfound hread

theorem refresh_eq_error (h : (refresh.run d).1 = .error e) : e.isDiskFault = true ∨ e = .noShortName := by
  rcases refresh_cases d with ⟨names, hread, -⟩ | ⟨e', hread, htable⟩
  · rw [hread] at h
    cases h
  · rw [hread] at h
    cases h
    exact table_eq_error htable

theorem delete_eq_error (h : ((delete name).run d).1 = .error e) :
    e.isDiskFault = true ∨ e = .noShortName := by
  rcases delete_cases d name with ⟨e', hfault, hrun⟩ | ⟨folder, -, hrun⟩
  · rw [hrun] at h
    cases h
    exact .inl hfault
  · rw [hrun] at h
    exact refresh_eq_error h

theorem rename_eq_error {newName : Text} (h : ((rename name newName).run d).1 = .error e) :
    e.isDiskFault = true ∨ e = .noShortName := by
  rcases rename_cases d name newName with ⟨e', hfault, hrun⟩ | ⟨-, hrun⟩ | ⟨short, folder, -, -, hrun⟩
  · rw [hrun] at h
    cases h
    exact .inl hfault
  · rw [hrun] at h
    exact .inr (Except.error.inj h).symm
  · rw [hrun] at h
    exact refresh_eq_error h

theorem Unprepared.fault {d' : Disk} (h : Unprepared d name e d') :
    e.isDiskFault = true ∨ e = .noShortName := by
  cases h with
  | unnamed => exact .inr rfl
  | unmade _ hshort hunmade =>
    exact .inl (ready_eq_error (Folder.isName_of_isShort (ShortName.isShort_of_ofName hshort)) hunmade)
  | unread _ _ _ hunread => exact table_eq_error hunread

theorem save_eq_error {bytes : List UInt8} (h : ((save name bytes).run d).1 = .error e) :
    e.isDiskFault = true ∨ e = .nullInName ∨ e = .noShortName := by
  rcases save_cases d name bytes with ⟨e', d', -, hunprepared, hsave⟩ |
      ⟨d', result, folder, -, -, hwrite, -, hsave⟩
  · rw [hsave] at h
    cases h
    exact hunprepared.fault.imp_right .inr
  · rw [hsave] at h
    cases hwrite with
    | refused hfault =>
      cases h
      exact hfault.imp_right .inl
    | @broken spot n r _ _ =>
      cases h
      exact .inl r.isDiskFault
    | written => cases h

theorem hasFile_eq_error (h : d.hasFile name = .error e) : e.isDiskFault = true := by
  rcases bind_eq_error_iff.mp h with hlook | ⟨found, -, hfound⟩
  · exact (Host.lookup_eq_error hlook).1
  · cases hfound

end Disk

/-- What becomes of the outcome of a step with codes for faults: the value of `R`, or a fault without a code. -/
def answer (code : Fault → Option Int) (x : Except Fault Unit) : Except Fault Nat :=
  Except.tryCatch (x.map fun _ => 0) fun e => (code e).elim (.error e) fun k => .ok k.toNat

section Answer

variable {code : Fault → Option Int} {e : Fault}

theorem answer_error_some {k : Int} (h : code e = some k) : answer code (.error e) = .ok k.toNat := by
  simp [answer, Except.tryCatch, Except.map, h]

theorem answer_error_none (h : code e = none) : answer code (.error e) = .error e := by
  simp [answer, Except.tryCatch, Except.map, h]

theorem Request.reply_eq_answer (r : Request) (x : Except Fault Unit) : r.reply x = answer r.code x := by
  rcases x with e | ⟨⟩
  · cases h : r.code e with
    | none => simp only [reply, answer_error_none h, h]
    | some k => simp only [reply, answer_error_some h, h]
  · rfl

end Answer

/-- What a line can ask the disk for, when it may also ask for what is on it. -/
inductive DiskTask where
  | request (r : Request)
  | load (name : Text) (a : Int)
  | size (name : Text)

namespace DiskTask

/-- The line begins with the command for the task, and its arguments stand for what is asked. -/
inductive Spelled (m : Machine) (line : Text) : DiskTask → Prop
  | request {r : Request} (spelled : r.Spelled m line) : Spelled m line (.request r)
  | load {w name : Text} {t ta : Token} {rest : List Token} {a : Int}
      (parsed : Token.parse line = .ok (.word w :: t :: ta :: rest))
      (command : Command.ofName? (upper w) = some .load) (named : t.toString m = .ok name)
      (start : ta.toNumeric m = .ok a) : Spelled m line (.load name a)
  | size {w name : Text} {t : Token} {rest : List Token}
      (parsed : Token.parse line = .ok (.word w :: t :: rest))
      (command : Command.ofName? (upper w) = some .size) (named : t.toString m = .ok name) :
      Spelled m line (.size name)

/-- What the disk says to the task. -/
def outcome (m : Machine) : DiskTask → Except Fault Unit
  | request r => ((r.perform m.memory).run m.disk).1
  | load name _ => (m.disk.size name).bind fun _ => (m.disk.load name).map fun _ => ()
  | size name => (m.disk.size name).map fun _ => ()

/-- The code for a fault. -/
def code : DiskTask → Fault → Option Int
  | request r => r.code
  | load .. => Command.refused
  | size .. => Command.missing

/-- What was asked for was not done: there was a fault, or the file to save was there already. -/
def Fails (m : Machine) (task : DiskTask) : Prop :=
  (∃ e, task.outcome m = .error e) ∨
    ∃ name a n, task = .request (.save name a n) ∧ m.disk.hasFile name = .ok true

theorem code_eq_some {task : DiskTask} {e : Fault} {k : Int} (h : task.code e = some k) :
    k = 1 ∨ k = 2 ∨ k = 3 := by
  cases task with
  | request r => exact Request.code_eq_some h
  | load =>
    simp only [code, Command.refused] at h
    split at h <;> cases h
    exact .inl rfl
  | size =>
    simp only [code, Command.missing] at h
    split at h <;> cases h
    exact .inl rfl

/-- Every fault of the disk has a code, but for a task that only has one for a missing file. -/
theorem code_eq_none_iff {task : DiskTask} {e : Fault} :
    task.code e = none ↔ e.isDiskFault = false ∨ ∃ name, task = .size name ∧ e.isMissingFile = false := by
  have hmissing : e.isDiskFault = false → e.isMissingFile = false := by
    simpa using mt (@Fault.isDiskFault_of_isMissingFile e)
  cases task with
  | request r => simp [code, Request.code_eq_none_iff]
  | load => simp [code, Command.refused]
  | size =>
    simp only [code, Command.missing, ite_eq_right_iff, reduceCtorEq, imp_false, Bool.not_eq_true, size.injEq]
    constructor
    · intro h
      exact .inr ⟨_, rfl, h⟩
    · rintro (hother | ⟨-, -, h⟩)
      · exact hmissing hother
      · exact h

theorem answer_eq_zero_iff {task : DiskTask} {x : Except Fault Unit} :
    answer task.code x = .ok 0 ↔ x = .ok () := by
  rcases x with e | ⟨⟩
  · cases h : task.code e with
    | none => simp [answer_error_none h]
    | some k =>
      rw [answer_error_some h]
      rcases code_eq_some h with rfl | rfl | rfl <;> simp
  · exact iff_of_true rfl rfl

theorem answer_eq_error_iff {task : DiskTask} {x : Except Fault Unit} {e : Fault} :
    answer task.code x = .error e ↔ x = .error e ∧ task.code e = none := by
  rcases x with e' | ⟨⟩
  · cases h : task.code e' with
    | none =>
      rw [answer_error_none h, Except.error.injEq, Except.error.injEq]
      exact ⟨fun heq => ⟨heq, heq ▸ h⟩, fun heq => heq.1⟩
    | some k =>
      rw [answer_error_some h]
      constructor
      · intro heq
        cases heq
      · rintro ⟨heq, hnone⟩
        rw [← Except.error.inj heq, h] at hnone
        cases hnone
  · constructor
    · intro heq
      cases heq
    · rintro ⟨heq, -⟩
      cases heq

theorem outcome_size_eq_error_iff {m : Machine} {name : Text} {e : Fault} :
    (size name).outcome m = .error e ↔ m.disk.size name = .error e := by
  rw [outcome]
  cases m.disk.size name <;> simp [Except.map]

theorem outcome_load_eq_error {m : Machine} {name : Text} {a : Int} {e : Fault}
    (h : (load name a).outcome m = .error e) : e.isDiskFault = true := by
  rw [outcome] at h
  cases hsize : m.disk.size name with
  | error e' =>
    rw [hsize] at h
    exact Except.error.inj h ▸ Disk.size_isDiskFault hsize
  | ok n =>
    rw [hsize] at h
    change (m.disk.load name).map _ = _ at h
    cases hload : m.disk.load name with
    | error e' =>
      rw [hload] at h
      exact Except.error.inj h ▸ Disk.load_eq_error hload
    | ok bytes =>
      rw [hload] at h
      cases h

/-- A fault that is not one of the disk comes from a null character in the name of a file to save, or from short
names that run out. -/
theorem outcome_request_eq_error {m : Machine} {r : Request} {e : Fault}
    (h : (request r).outcome m = .error e) :
    e.isDiskFault = true ∨ e = .noShortName ∨ e = .nullInName ∧ ∃ name a n, r = .save name a n := by
  cases r with
  | save name a n =>
    rw [outcome, Request.run_perform_save] at h
    cases hthere : m.disk.hasFile name with
    | error e' =>
      simp only [hthere] at h
      exact .inl (Except.error.inj h ▸ Disk.hasFile_eq_error hthere)
    | ok there =>
      cases there with
      | true =>
        simp only [hthere] at h
        cases h
      | false =>
        simp only [hthere] at h
        rcases Disk.save_eq_error h with hfault | hnull | hnames
        · exact .inl hfault
        · exact .inr (.inr ⟨hnull, name, a, n, rfl⟩)
        · exact .inr (.inl hnames)
  | delete name => exact (Disk.delete_eq_error h).imp_right .inl
  | rename name newName => exact (Disk.rename_eq_error h).imp_right .inl

/-- The tasks that are not reported. The first fault is one of the disk, for which the command has no code. A file
that is there already is taken for a success. The other faults are not of the disk. -/
inductive Unreported (m : Machine) : DiskTask → Prop
  | unsized {name : Text} {e : Fault} (refused : m.disk.SizeRefused name e) : Unreported m (.size name)
  | existing {name : Text} {a n : Int} (there : m.disk.hasFile name = .ok true) :
      Unreported m (.request (.save name a n))
  | null {name : Text} {a n : Int} (fault : (request (.save name a n)).outcome m = .error .nullInName) :
      Unreported m (.request (.save name a n))
  | unnamed {r : Request} (fault : (request r).outcome m = .error .noShortName) : Unreported m (.request r)

theorem Unreported.of_code {m : Machine} {task : DiskTask} {e : Fault} (h : task.outcome m = .error e)
    (hcode : task.code e = none) : task.Unreported m := by
  rw [code_eq_none_iff] at hcode
  cases task with
  | request r =>
    have hother : e.isDiskFault = false := by simpa using hcode
    rcases outcome_request_eq_error h with hfault | rfl | ⟨rfl, name, a, n, rfl⟩
    · rw [hother] at hfault
      cases hfault
    · exact .unnamed h
    · exact .null h
  | load name a =>
    have hother : e.isDiskFault = false := by simpa using hcode
    rw [outcome_load_eq_error h] at hother
    cases hother
  | size name =>
    rcases Disk.size_eq_error (outcome_size_eq_error_iff.mp h) with hmissing | hrefused
    · simp [hmissing, Fault.isDiskFault_of_isMissingFile hmissing] at hcode
    · exact .unsized hrefused

/-- Of the tasks that are not reported only the one for a file that is there comes without a fault. -/
theorem Unreported.fault {m : Machine} {task : DiskTask} (h : task.Unreported m) :
    (∃ e, task.outcome m = .error e ∧ task.code e = none) ∨ task.outcome m = .ok () ∧ task.Fails m := by
  cases h with
  | @unsized name e hrefused =>
    exact .inl ⟨e, outcome_size_eq_error_iff.mpr hrefused.size,
      code_eq_none_iff.mpr (.inr ⟨name, rfl, hrefused.not_missing⟩)⟩
  | @existing name a n hthere =>
    right
    have hdone : (request (.save name a n)).outcome m = .ok () := by
      simp only [outcome, Request.run_perform_save, hthere]
    exact ⟨hdone, .inr ⟨name, a, n, rfl, hthere⟩⟩
  | null hfault => exact .inl ⟨_, hfault, rfl⟩
  | unnamed hfault => exact .inl ⟨_, hfault, Request.code_eq_none_iff.mpr rfl⟩

end DiskTask

namespace Command

theorem run_setSize {c : Call} (hsize : 17664 ≤ c.machine.memory.size) (n : Nat) :
    ∃ c', (setSize n).run c = (.ok (), c') ∧ c'.machine.numeric ['R'] = .ok 0 := by
  obtain ⟨c₁, hresult, -, hsize₁, hcode⟩ := run_setResult hsize 0
  rw [← hsize₁] at hsize
  obtain ⟨con, hnumber⟩ := Machine.run_setNumeric hsize (Machine.numericAddress_numericName 18) n
  have hname : Machine.numericName 18 = ['S'] := rfl
  have hkeep := @Machine.onlyChanges_write _ hsize (.numeric 18) (Machine.wordStart 18)
    [Memory.byteOf (n % 65536), Memory.byteOf (n % 65536 / 256)] (Nat.le_refl _) (Nat.le_refl _) con
  rw [hname] at hnumber
  rw [setSize, Run.run_bind_ok hresult, Call.run_liftM, hnumber]
  exact ⟨_, rfl, (hkeep.others (.numeric 17) (by decide)).trans hcode⟩

/-- A step that gives the size of a file, with codes for its faults. -/
theorem run_attempt_size {x : Run Call Nat} {code : Fault → Option Int} {c c' : Call} {r : Except Fault Nat}
    (hx : x.run c = (r, c')) (hsize : 17664 ≤ c'.machine.memory.size)
    (hcode : ∀ e k, code e = some k → k = 1 ∨ k = 2 ∨ k = 3) :
    ∃ c'', (attempt x code setSize).run c = ((answer code (r.map fun _ => ())).map fun _ => (), c'') ∧
      ∀ k, answer code (r.map fun _ => ()) = .ok k → c''.machine.numeric ['R'] = .ok k := by
  rw [run_attempt, hx]
  cases r with
  | error e =>
    have hmap : (Except.error e : Except Fault Nat).map (fun _ => ()) = .error e := rfl
    rw [hmap]
    cases he : code e with
    | none =>
      refine ⟨c', by simp only [he, answer_error_none he]; rfl, fun k hk => ?_⟩
      rw [answer_error_none he] at hk
      cases hk
    | some k =>
      obtain ⟨c'', hset, -, -, hvalue⟩ := run_setResult hsize k
      refine ⟨c'', by simp only [he, answer_error_some he]; exact hset, fun k' hk' => ?_⟩
      rw [answer_error_some he] at hk'
      rw [hvalue, ← hk']
      rcases hcode e k he with rfl | rfl | rfl <;> rfl
  | ok n =>
    obtain ⟨c'', hset, hvalue⟩ := run_setSize hsize n
    refine ⟨c'', hset, fun k hk => ?_⟩
    rw [hvalue, ← hk]
    rfl

variable {m : Machine} {ts : List Token} {t ta : Token} {name : Text} {a : Int}

theorem run_sizeOf_next (h : Arguments.Has ts 1 t) (hname : t.toString m = .ok name) :
    (do sizeOf (← Call.nextString)).run ⟨m, ⟨ts, 1⟩⟩ = (m.disk.size name, ⟨m, ⟨ts, 2⟩⟩) := by
  simp only [Call.nextString, Run.run_bind, Call.run_nextAs _ h, hname]
  rfl

theorem run_loadFile_next (h : Arguments.Has ts 1 t) (ha : Arguments.Has ts 2 ta)
    (hname : t.toString m = .ok name) (hstart : ta.toNumeric m = .ok a) :
    ∃ r c, loadFile.run ⟨m, ⟨ts, 1⟩⟩ = (r, c) ∧
      r.map (fun _ => ()) = (DiskTask.load name a).outcome m ∧ m.memory.size ≤ c.machine.memory.size := by
  simp only [loadFile, Call.nextString, Call.nextNumeric, Run.run_bind, Call.run_nextAs _ h, hname]
  simp only [Int.reduceAdd, Call.run_nextAs _ ha, hstart, sizeOf, Run.run_bind, Run.run_get, Run.run_ofExcept,
    DiskTask.outcome]
  cases hsize : m.disk.size name with
  | error e => exact ⟨_, _, rfl, rfl, Nat.le_refl _⟩
  | ok n =>
    simp only [Call.run_liftM, Machine.run_loadFile]
    cases hload : m.disk.load name with
    | error e => exact ⟨_, _, rfl, rfl, Nat.le_refl _⟩
    | ok bytes => exact ⟨_, _, rfl, rfl, Memory.size_le_writeData m.memory a bytes⟩

end Command

namespace Machine

variable {m : Machine} {line : Text} {task : DiskTask}

/-- A line with a task leaves the code for the outcome in `R`, unless there is none: then it fails. -/
theorem run_task (hsize : 65536 ≤ m.memory.size) (h : task.Spelled m line) :
    ∃ n, (runLine line).run m = ((answer task.code (task.outcome m)).map fun _ => (), n) ∧
      ∀ k, answer task.code (task.outcome m) = .ok k → n.numeric ['R'] = .ok k := by
  cases h with
  | @request r hspelled =>
    obtain ⟨n, hrun, -, hvalue⟩ := run_request hsize hspelled
    simp only [Request.reply_eq_answer] at hrun hvalue
    exact ⟨n, hrun, hvalue⟩
  | @load w name t ta rest a hparse hcommand hname hstart =>
    obtain ⟨con, hline⟩ := run_commandLine hparse hcommand m
    have hview : SameView m { m with console := con } := ⟨rfl, rfl, rfl⟩
    have hfirst : Arguments.Has (.word w :: t :: ta :: rest) 1 t := ⟨by decide, by decide, rfl⟩
    have hsecond : Arguments.Has (.word w :: t :: ta :: rest) 2 ta := ⟨by decide, by decide, rfl⟩
    obtain ⟨r, c, hload, hresult, hroom⟩ := Command.run_loadFile_next hfirst hsecond
      ((hview.toString t).trans hname) ((hview.toNumeric ta).trans hstart)
    obtain ⟨c', hrun, hvalue⟩ := Command.run_attempt_size hload (by dsimp only at hroom; omega)
      fun e k => @DiskTask.code_eq_some (.load name a) e k
    rw [hresult] at hrun hvalue
    exact ⟨c'.machine, hline _ c' hrun, hvalue⟩
  | @size w name t rest hparse hcommand hname =>
    obtain ⟨con, hline⟩ := run_commandLine hparse hcommand m
    have hview : SameView m { m with console := con } := ⟨rfl, rfl, rfl⟩
    have hfirst : Arguments.Has (.word w :: t :: rest) 1 t := ⟨by decide, by decide, rfl⟩
    have hask := Command.run_sizeOf_next hfirst ((hview.toString t).trans hname)
    obtain ⟨c', hrun, hvalue⟩ := Command.run_attempt_size hask (by dsimp only; omega)
      fun e k => @DiskTask.code_eq_some (.size name) e k
    exact ⟨c'.machine, hline _ c' hrun, hvalue⟩

theorem runLine_eq_error_iff (hsize : 65536 ≤ m.memory.size) (h : task.Spelled m line) {e : Fault} :
    ((runLine line).run m).1 = .error e ↔ task.outcome m = .error e ∧ task.code e = none := by
  obtain ⟨n, hrun, -⟩ := run_task hsize h
  rw [hrun, ← DiskTask.answer_eq_error_iff]
  cases answer task.code (task.outcome m) <;> simp [Except.map]

/-- The line returns and leaves a code in `R`, which is zero just when what was asked for was done. -/
structure Reported (m : Machine) (line : Text) (task : DiskTask) : Prop where
  returns : ((runLine line).run m).1 = .ok ()
  code : ∃ k, ((runLine line).run m).2.numeric ['R'] = .ok k ∧ (k = 0 ↔ ¬task.Fails m)

theorem Reported.not_unreported (hsize : 65536 ≤ m.memory.size) (hline : task.Spelled m line)
    (h : Reported m line task) : ¬task.Unreported m := by
  intro hunreported
  rcases hunreported.fault with ⟨e, he⟩ | ⟨hdone, hfails⟩
  · have hreturns := h.returns
    rw [(runLine_eq_error_iff hsize hline).mpr he] at hreturns
    cases hreturns
  · obtain ⟨n, hrun, hvalue⟩ := run_task hsize hline
    obtain ⟨k, hk, hzero⟩ := h.code
    rw [hrun, hvalue 0 (DiskTask.answer_eq_zero_iff.mpr hdone), Except.ok.injEq] at hk
    exact hzero.mp hk.symm hfails

theorem reported_of_not_unreported (hsize : 65536 ≤ m.memory.size) (hline : task.Spelled m line)
    (h : ¬task.Unreported m) : Reported m line task := by
  obtain ⟨n, hrun, hvalue⟩ := run_task hsize hline
  -- A fault without a code would not be reported, so there is a code.
  obtain ⟨k, hk⟩ : ∃ k, answer task.code (task.outcome m) = .ok k := by
    cases hanswer : answer task.code (task.outcome m) with
    | ok k => exact ⟨k, rfl⟩
    | error e =>
      obtain ⟨he, hcode⟩ := DiskTask.answer_eq_error_iff.mp hanswer
      exact absurd (.of_code he hcode) h
  have hfails : task.Fails m ↔ ∃ e, task.outcome m = .error e := by
    refine or_iff_left ?_
    rintro ⟨name, a, l, rfl, hthere⟩
    exact h (.existing hthere)
  have hzero : k = 0 ↔ ¬task.Fails m := by
    have hdone := @DiskTask.answer_eq_zero_iff task (task.outcome m)
    rw [hk, Except.ok.injEq] at hdone
    rw [hdone, hfails]
    rcases task.outcome m with e | ⟨⟩ <;> simp
  constructor
  case returns =>
    rw [hrun, hk]
    rfl
  case code => exact ⟨k, by rw [hrun]; exact hvalue k hk, hzero⟩

/-- Every line with a task for the disk is reported unless the task is one of four kinds. In one of these a fault
of the disk goes through: the size of a file is asked for, and the host refuses to look for the file or to tell
its size. -/
theorem disk_reported_iff (m : Machine) (line : Text) (task : DiskTask) (hsize : 65536 ≤ m.memory.size)
    (hline : task.Spelled m line) :
    (Reported m line task ↔ ¬task.Unreported m) ∧
      ∀ e : Fault, e.isDiskFault = true → (((runLine line).run m).1 = .error e ↔
        ∃ name, task = .size name ∧ m.disk.SizeRefused name e) := by
  refine ⟨⟨Reported.not_unreported hsize hline, reported_of_not_unreported hsize hline⟩, ?_⟩
  intro e hdisk
  rw [runLine_eq_error_iff hsize hline, DiskTask.code_eq_none_iff, hdisk]
  constructor
  · rintro ⟨he, hcode⟩
    obtain ⟨name, rfl, hthere⟩ := hcode.resolve_left (by simp)
    rcases Disk.size_eq_error (DiskTask.outcome_size_eq_error_iff.mp he) with hmissing | hrefused
    · rw [hmissing] at hthere
      cases hthere
    · exact ⟨name, rfl, hrefused⟩
  · rintro ⟨name, rfl, hrefused⟩
    exact ⟨DiskTask.outcome_size_eq_error_iff.mpr hrefused.size, .inr ⟨name, rfl, hrefused.not_missing⟩⟩

def longName : Text := List.replicate 256 'A'

def longLine (command rest : String) : Text :=
  command.toList ++ " \"".toList ++ longName ++ "\"".toList ++ rest.toList

/-- The long name is too long for loading too, but there it is reported. -/
theorem disk_reported_longLoad :
    65536 ≤ withFolder.memory.size ∧ (DiskTask.load longName 100).Spelled withFolder (longLine "LOAD" " 100") ∧
      Reported withFolder (longLine "LOAD" " 100") (.load longName 100) := by
  have hsize : 65536 ≤ withFolder.memory.size := by decide +kernel
  have hparse : Token.parse (longLine "LOAD" " 100") =
      .ok [.word "LOAD".toList, .quote ("\"".toList ++ longName ++ "\"".toList), .number 100] := by
    decide +kernel
  have hline : (DiskTask.load longName 100).Spelled withFolder (longLine "LOAD" " 100") :=
    .load hparse (by decide +kernel) (by decide +kernel) rfl
  refine ⟨hsize, hline, (disk_reported_iff withFolder _ _ hsize hline).1.mpr ?_⟩
  intro hunreported
  cases hunreported

/-- The size of a file with the long name ends the program with a fault of the disk, and a file that was there
already is not saved, but `R` is zero. -/
theorem disk_unreported :
    ((runLine (longLine "SIZE" "")).run withFolder).1 = .error .nameTooLong ∧
      Fault.nameTooLong.isDiskFault = true ∧ ¬Reported withFolder (longLine "SIZE" "") (.size longName) ∧
      ¬Reported withFolder "SAVE \"NOTES.TXT\" 100 4".toList (.request (.save "NOTES.TXT".toList 100 4)) := by
  have hsize : ((runLine (longLine "SIZE" "")).run withFolder).1 = .error .nameTooLong := by decide +kernel
  refine ⟨hsize, rfl, fun hreported => ?_, fun hreported => ?_⟩
  · have hreturns := hreported.returns
    rw [hsize] at hreturns
    cases hreturns
  · obtain ⟨k, hk, hzero⟩ := hreported.code
    have hcode : ((runLine "SAVE \"NOTES.TXT\" 100 4".toList).run withFolder).2.numeric ['R'] = .ok 0 := by
      decide +kernel
    rw [hcode, Except.ok.injEq] at hk
    have hthere : withFolder.disk.hasFile "NOTES.TXT".toList = .ok true := by decide +kernel
    exact hzero.mp hk.symm (.inr ⟨_, _, _, rfl, hthere⟩)

end Machine
end BasicMachine
