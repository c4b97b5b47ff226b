import BasicMachine.Proofs.VariableStore

/-! The commands that change the disk. A line that saves, deletes or renames a file does to the disk what it
asks for and nothing else, and then answers in the variable `R`. -/
namespace BasicMachine

/-- What a line can ask the disk for. -/
inductive Request where
  | save (name : Text) (a n : Int)
  | delete (name : Text)
  | rename (name newName : Text)

theorem Command.missingOrRefused_eq_some {e : Fault} {k : Int} (h : missingOrRefused e = some k) :
    k = 1 ∨ k = 2 := by
  rw [missingOrRefused] at h
  split at h
  · cases h
    exact .inr rfl
  · split at h <;> cases h
    exact .inl rfl

namespace Request

def name : Request → Text
  | save name _ _ | delete name | rename name _ => name

/-- The line begins with the command for the request, and its arguments stand for what is asked. -/
inductive Spelled (m : Machine) (line : Text) : Request → Prop
  | save {w name : Text} {t ta tn : Token} {rest : List Token} {a n : Int}
      (parsed : Token.parse line = .ok (.word w :: t :: ta :: tn :: rest))
      (command : Command.ofName? (upper w) = some .save) (named : t.toString m = .ok name)
      (start : ta.toNumeric m = .ok a) (length : tn.toNumeric m = .ok n) : Spelled m line (.save name a n)
  | delete {w name : Text} {t : Token} {rest : List Token}
      (parsed : Token.parse line = .ok (.word w :: t :: rest))
      (command : Command.ofName? (upper w) = some .delete) (named : t.toString m = .ok name) :
      Spelled m line (.delete name)
  | rename {w name newName : Text} {t t' : Token} {rest : List Token}
      (parsed : Token.parse line = .ok (.word w :: t :: t' :: rest))
      (command : Command.ofName? (upper w) = some .rename) (named : t.toString m = .ok name)
      (renamed : t'.toString m = .ok newName) : Spelled m line (.rename name newName)

/-- What the disk does on a request. A file that is there already is not saved again. -/
def perform (memory : Memory) : Request → Run Disk Unit
  | save name a n => do
    if !(← Run.ofExcept ((← get).hasFile name)) then Disk.save name (memory.readData a n)
  | delete name => Disk.delete name
  | rename name newName => Disk.rename name newName

/-- The code for a fault. -/
def code : Request → Fault → Option Int
  | save .. => Command.refused
  | delete .. => Command.missingOrRefused
  | rename .. => Command.takenOrRefused

/-- What the machine makes of the outcome: the value of `R`, or a fault that ends the program. -/
def reply (r : Request) : Except Fault Unit → Except Fault Nat
  | .ok () => .ok 0
  | .error e => match r.code e with
    | some k => .ok k.toNat
    | none => .error e

theorem run_perform_save (memory : Memory) (name : Text) (a n : Int) (d : Disk) :
    (perform memory (.save name a n)).run d = match d.hasFile name with
      | .ok true => (.ok (), d)
      | .ok false => (Disk.save name (memory.readData a n)).run d
      | .error e => (.error e, d) := by
  simp only [perform, Run.run_bind, Run.run_get, Run.run_ofExcept]
  rcases d.hasFile name with e | _ | _ <;> rfl

theorem code_eq_some {r : Request} {e : Fault} {k : Int} (h : r.code e = some k) :
    k = 1 ∨ k = 2 ∨ k = 3 := by
  cases r with
  | save =>
    simp only [code, Command.refused] at h
    split at h <;> cases h
    exact .inl rfl
  | delete => exact (Command.missingOrRefused_eq_some h).imp_right .inl
  | rename =>
    simp only [code, Command.takenOrRefused] at h
    split at h
    · cases h
      exact .inr (.inr rfl)
    · exact (Command.missingOrRefused_eq_some h).imp_right .inl

/-- The faults of the disk are those that have a code. -/
theorem code_eq_none_iff {r : Request} {e : Fault} : r.code e = none ↔ e.isDiskFault = false := by
  have hmissing : e.isMissingFile = true → e.isDiskFault = true := by
    cases e <;> simp [Fault.isMissingFile, Fault.isDiskFault]
  have hcode : Command.missingOrRefused e = none ↔ e.isDiskFault = false := by
    rw [Command.missingOrRefused]
    split
    · next h => simp [hmissing h]
    · simp
  cases r with
  | save => simp [code, Command.refused]
  | delete => exact hcode
  | rename =>
    simp only [code, Command.takenOrRefused]
    split
    · next h => simp [h, Fault.isDiskFault]
    · exact hcode

theorem reply_eq_zero_iff {r : Request} {x : Except Fault Unit} : r.reply x = .ok 0 ↔ x = .ok () := by
  constructor
  · intro h
    rcases x with e | ⟨⟩
    · simp only [reply] at h
      cases hcode : r.code e with
      | none => simp [hcode] at h
      | some k =>
        simp only [hcode, Except.ok.injEq] at h
        rcases code_eq_some hcode with rfl | rfl | rfl <;> cases h
    · rfl
  · rintro rfl
    rfl

theorem reply_eq_error_iff {r : Request} {x : Except Fault Unit} {e : Fault} :
    r.reply x = .error e ↔ x = .error e ∧ e.isDiskFault = false := by
  rw [← code_eq_none_iff (r := r)]
  rcases x with e' | ⟨⟩
  · simp only [reply, Except.error.injEq]
    cases hcode : r.code e' with
    | none =>
      simp only [Except.error.injEq]
      exact ⟨fun h => ⟨h, h ▸ hcode⟩, fun h => h.1⟩
    | some k =>
      simp only [reduceCtorEq, false_iff]
      rintro ⟨rfl, hnone⟩
      rw [hcode] at hnone
      cases hnone
  · simp [reply]

end Request

namespace Command

/-- A step that ends with `result` and `disk`, and with a memory of the same length. -/
def EndsWith (x : Run Call Unit) (c : Call) (result : Except Fault Unit) (disk : Disk) : Prop :=
  ∃ c', x.run c = (result, c') ∧ c'.machine.disk = disk ∧
    c'.machine.memory.size = c.machine.memory.size

theorem run_setResult {c : Call} (hsize : 17664 ≤ c.machine.memory.size) (k : Int) :
    ∃ c', (setResult k).run c = (.ok (), c') ∧ c'.machine.disk = c.machine.disk ∧
      c'.machine.memory.size = c.machine.memory.size ∧
      c'.machine.numeric ['R'] = .ok (k % 65536).toNat := by
  have hname : Machine.numericName 17 = ['R'] := rfl
  obtain ⟨console, hrun⟩ :=
    Machine.run_setNumeric hsize (Machine.numericAddress_numericName 17) k
  have hvalue := Machine.numeric_of_bytes hsize (i := 17) (v := k % 65536) console
  rw [hname] at hrun hvalue
  rw [setResult, Call.run_liftM, hrun]
  refine ⟨_, rfl, rfl, Bank.size_write .., ?_⟩
  rw [hvalue, Int.emod_emod_of_dvd k (by decide)]

/-- A routine that tries a step on the disk and answers zero when it succeeds. -/
theorem run_attempt_of_endsWith {r : Request} {x : Run Call Unit} {c : Call} {result : Except Fault Unit}
    {disk : Disk} (hsize : 17664 ≤ c.machine.memory.size) (hx : EndsWith x c result disk) :
    ∃ c', (attempt x r.code fun _ => setResult 0).run c = ((r.reply result).map fun _ => (), c') ∧
      c'.machine.disk = disk ∧ ∀ k, r.reply result = .ok k → c'.machine.numeric ['R'] = .ok k := by
  obtain ⟨c', hrun, rfl, hkeep⟩ := hx
  rw [← hkeep] at hsize
  rcases result with e | ⟨⟩
  · cases hcode : r.code e with
    | none =>
      have hreply : r.reply (.error e) = .error e := by simp only [Request.reply, hcode]
      simp only [run_attempt, hrun, hcode, hreply]
      refine ⟨c', rfl, rfl, ?_⟩
      intro k hk
      cases hk
    | some k =>
      have hreply : r.reply (.error e) = .ok k.toNat := by simp only [Request.reply, hcode]
      obtain ⟨c'', hset, hdisk, -, hvalue⟩ := run_setResult hsize k
      simp only [run_attempt, hrun, hcode, hreply]
      refine ⟨c'', hset, hdisk, ?_⟩
      intro k' hk'
      rw [hvalue, ← hk']
      rcases Request.code_eq_some hcode with rfl | rfl | rfl <;> rfl
  · obtain ⟨c'', hset, hdisk, -, hvalue⟩ := run_setResult hsize 0
    rw [run_attempt, hrun]
    refine ⟨c'', hset, hdisk, ?_⟩
    intro k hk
    rw [hvalue, ← hk]
    rfl

variable {m : Machine} {ts : List Token} {t : Token} {name : Text}

theorem endsWith_delete (h : Arguments.Has ts 1 t) (hname : t.toString m = .ok name) :
    EndsWith (do Machine.onDisk (Disk.delete (← Call.nextString))) ⟨m, ⟨ts, 1⟩⟩
      ((Disk.delete name).run m.disk).1 ((Disk.delete name).run m.disk).2 := by
  refine ⟨⟨{ m with disk := ((Disk.delete name).run m.disk).2 }, ⟨ts, 2⟩⟩, ?_, rfl, rfl⟩
  simp only [Call.nextString, Run.run_bind, Call.run_nextAs _ h, hname]
  rfl

theorem endsWith_rename {t' : Token} {newName : Text} (h : Arguments.Has ts 1 t)
    (h' : Arguments.Has ts 2 t') (hname : t.toString m = .ok name)
    (hnew : t'.toString m = .ok newName) :
    EndsWith (do
        let name ← Call.nextString
        let newName ← Call.nextString
        Machine.onDisk (Disk.rename name newName)) ⟨m, ⟨ts, 1⟩⟩
      ((Disk.rename name newName).run m.disk).1 ((Disk.rename name newName).run m.disk).2 := by
  refine ⟨⟨{ m with disk := ((Disk.rename name newName).run m.disk).2 }, ⟨ts, 3⟩⟩, ?_, rfl, rfl⟩
  simp only [Call.nextString, Run.run_bind, Call.run_nextAs _ h, hname]
  simp only [Int.reduceAdd, Call.run_nextAs _ h', hnew]
  rfl

theorem endsWith_save (hsize : 17664 ≤ m.memory.size) {ta tn : Token} {a n : Int}
    (h : Arguments.Has ts 1 t) (ha : Arguments.Has ts 2 ta) (hn : Arguments.Has ts 3 tn)
    (hname : t.toString m = .ok name) (hstart : ta.toNumeric m = .ok a)
    (hlength : tn.toNumeric m = .ok n) :
    EndsWith (do
        let name ← Call.nextString
        let a ← Call.nextNumeric
        let n ← Call.nextNumeric
        if ← Run.ofExcept ((← get).machine.disk.hasFile name) then setResult 2
        else
          Machine.saveFile name a n
          setResult 0) ⟨m, ⟨ts, 1⟩⟩
      (((Request.save name a n).perform m.memory).run m.disk).1
      (((Request.save name a n).perform m.memory).run m.disk).2 := by
  rw [EndsWith, Request.run_perform_save]
  simp only [Call.nextString, Call.nextNumeric, Run.run_bind, Call.run_nextAs _ h, hname]
  simp only [Int.reduceAdd, Call.run_nextAs _ ha, hstart]
  simp only [Int.reduceAdd, Call.run_nextAs _ hn, hlength, Run.run_get, Run.run_ofExcept]
  cases m.disk.hasFile name with
  | error e => exact ⟨_, rfl, rfl, rfl⟩
  | ok there =>
    cases there with
    | true =>
      obtain ⟨c, hset, hdisk, hkeep, -⟩ := run_setResult (c := ⟨m, ⟨ts, 4⟩⟩) hsize 2
      exact ⟨c, hset, hdisk, hkeep⟩
    | false =>
      simp only [Bool.false_eq_true, if_false, Run.run_bind, Call.run_liftM, Machine.run_saveFile]
      rcases hsave : (Disk.save name (m.memory.readData a n)).run m.disk with ⟨result, d⟩
      cases result with
      | error e => exact ⟨_, rfl, rfl, rfl⟩
      | ok u =>
        obtain ⟨c, hset, hdisk, hkeep, -⟩ :=
          run_setResult (c := ⟨{ m with disk := d }, ⟨ts, 4⟩⟩) hsize 0
        exact ⟨c, hset, hdisk, hkeep⟩

end Command

namespace Machine

variable {m : Machine} {line : Text}

theorem run_attemptLine (hsize : 65536 ≤ m.memory.size) {w : Text} {ts : List Token} {command : Command}
    (hparse : Token.parse line = .ok (.word w :: ts))
    (hcommand : Command.ofName? (upper w) = some command) {r : Request} {x : Run Call Unit}
    (hroutine : command.routine Debugger.hooks = Command.attempt x r.code fun _ => Command.setResult 0)
    (hends : ∀ con, Command.EndsWith x ⟨{ m with console := con }, ⟨.word w :: ts, 1⟩⟩
      ((r.perform m.memory).run m.disk).1 ((r.perform m.memory).run m.disk).2) :
    ∃ n, (runLine line).run m =
        ((r.reply ((r.perform m.memory).run m.disk).1).map fun _ => (), n) ∧
      n.disk = ((r.perform m.memory).run m.disk).2 ∧
      ∀ k, r.reply ((r.perform m.memory).run m.disk).1 = .ok k → n.numeric ['R'] = .ok k := by
  obtain ⟨con, hline⟩ := run_commandLine hparse hcommand m
  have hroom : 17664 ≤ m.memory.size := by omega
  obtain ⟨c, hrun, hdisk, hvalue⟩ := Command.run_attempt_of_endsWith (r := r) hroom (hends con)
  rw [hroutine] at hline
  exact ⟨c.machine, hline _ c hrun, hdisk, hvalue⟩

/-- A line with a request does to the disk what it asks for and nothing else. It leaves the code for the
outcome in `R`, unless there is none: then it fails. -/
theorem run_request (hsize : 65536 ≤ m.memory.size) {r : Request} (h : r.Spelled m line) :
    ∃ n, (runLine line).run m =
        ((r.reply ((r.perform m.memory).run m.disk).1).map fun _ => (), n) ∧
      n.disk = ((r.perform m.memory).run m.disk).2 ∧
      ∀ k, r.reply ((r.perform m.memory).run m.disk).1 = .ok k → n.numeric ['R'] = .ok k := by
  have hview (con : Console) : SameView m { m with console := con } := ⟨rfl, rfl, rfl⟩
  cases h with
  | @save w name t ta tn rest a n hparse hcommand hname hstart hlength =>
    refine run_attemptLine hsize hparse hcommand rfl fun con => ?_
    have hroom : 17664 ≤ m.memory.size := by omega
    have hfirst : Arguments.Has (.word w :: t :: ta :: tn :: rest) 1 t := ⟨by decide, by decide, rfl⟩
    have hsecond : Arguments.Has (.word w :: t :: ta :: tn :: rest) 2 ta := ⟨by decide, by decide, rfl⟩
    have hthird : Arguments.Has (.word w :: t :: ta :: tn :: rest) 3 tn := ⟨by decide, by decide, rfl⟩
    exact Command.endsWith_save (m := { m with console := con }) hroom hfirst hsecond hthird
      (((hview con).toString t).trans hname) (((hview con).toNumeric ta).trans hstart)
      (((hview con).toNumeric tn).trans hlength)
  | @delete w name t rest hparse hcommand hname =>
    refine run_attemptLine hsize hparse hcommand rfl fun con => ?_
    have hfirst : Arguments.Has (.word w :: t :: rest) 1 t := ⟨by decide, by decide, rfl⟩
    exact Command.endsWith_delete hfirst (((hview con).toString t).trans hname)
  | @rename w name newName t t' rest hparse hcommand hname hnew =>
    refine run_attemptLine hsize hparse hcommand rfl fun con => ?_
    have hfirst : Arguments.Has (.word w :: t :: t' :: rest) 1 t := ⟨by decide, by decide, rfl⟩
    have hsecond : Arguments.Has (.word w :: t :: t' :: rest) 2 t' := ⟨by decide, by decide, rfl⟩
    exact Command.endsWith_rename hfirst hsecond (((hview con).toString t).trans hname)
      (((hview con).toString t').trans hnew)

end Machine
end BasicMachine
