import BasicMachine.Proofs.ProgramRun

/-! The store of the variables. The numeric variables are words, one behind the other, and the string
variables are blocks of 127 bytes with a free byte behind each. No two of them share a byte, so whatever
is stored inside one of them leaves the others as they are. -/
namespace BasicMachine

namespace Memory

theorem toNat_byteOf (v : Int) : (byteOf v).toNat = (v % 256).toNat := by
  have hmod : (v % 256).toNat % 256 = (v % 256).toNat := by omega
  simpa [byteOf] using hmod

theorem toNat_byteOf_add (v : Int) :
    (byteOf v).toNat + 256 * (byteOf (v / 256)).toNat = (v % 65536).toNat := by
  rw [toNat_byteOf, toNat_byteOf]
  omega

end Memory

/-- The variables that a program has. -/
inductive Variable where
  | numeric (i : Fin 26)
  | string (i : Fin 8)
  deriving DecidableEq

namespace Variable

/-- The address of the first byte of a variable. -/
def start : Variable → Nat
  | numeric i => Machine.wordStart i
  | string i => Machine.blockStart i

def length : Variable → Nat
  | numeric _ => 2
  | string _ => 127

def Covers (v : Variable) (k : Nat) : Prop := v.start ≤ k ∧ k < v.start + v.length

theorem apart {v w : Variable} (h : v ≠ w) {k : Nat} (hv : v.Covers k) : ¬w.Covers k := by
  intro hw
  apply h
  cases v with
  | numeric i =>
    cases w with
    | numeric j =>
      simp only [Covers, start, length, Machine.wordStart] at hv hw
      congr
      omega
    | string j =>
      simp only [Covers, start, length, Machine.wordStart, Machine.blockStart] at hv hw
      omega
  | string i =>
    cases w with
    | numeric j =>
      simp only [Covers, start, length, Machine.wordStart, Machine.blockStart] at hv hw
      omega
    | string j =>
      simp only [Covers, start, length, Machine.blockStart] at hv hw
      congr
      omega

end Variable

namespace Machine

def numericName (i : Fin 26) : Text := [Char.ofNat (65 + i)]

theorem numericAddress_numericName (i : Fin 26) :
    numericAddress (numericName i) = .ok (wordStart i : Int) := by
  revert i
  decide +kernel

theorem value_variableStart (m : Machine) (i : Fin 26) :
    Keyword.variableStart.value m + 2 * (i : Nat) = (wordStart i : Int) := by
  simp [Keyword.value, numericStart, wordStart]

theorem numeric_numericName {m : Machine} (h : 17664 ≤ m.memory.size) (i : Fin 26) :
    m.numeric (numericName i) =
      .ok ((m.memory.get (wordStart i)).toNat + 256 * (m.memory.get (wordStart i + 1)).toNat) := by
  have hle := wordStart_le i
  rw [numeric, numericAddress_numericName]
  exact Memory.readWord_natCast (wordStart_lt_limit i) (by omega)

/-- The two machines hold the same in a variable. -/
def SameIn (m n : Machine) : Variable → Prop
  | .numeric i => n.numeric (numericName i) = m.numeric (numericName i)
  | .string i => n.string (stringName i) = m.string (stringName i)

theorem sameIn_of_bytes {m n : Machine} {w : Variable} (hm : 17664 ≤ m.memory.size)
    (hn : 17664 ≤ n.memory.size) (h : ∀ k, w.Covers k → n.memory.get k = m.memory.get k) :
    SameIn m n w := by
  cases w with
  | numeric i =>
    have hlow := h (wordStart i) ⟨Nat.le_refl _, Nat.lt_add_of_pos_right Nat.two_pos⟩
    have hhigh := h (wordStart i + 1) ⟨Nat.le_succ _, Nat.lt_succ_self _⟩
    rw [SameIn, numeric_numericName hm, numeric_numericName hn, hlow, hhigh]
  | string i =>
    have hblock : stringBlock n.memory i = stringBlock m.memory i :=
      Bank.slice_congr fun k hfirst hlast => h k ⟨hfirst, hlast⟩
    rw [SameIn, string_stringName hm, string_stringName hn, hblock]

/-- Of all that a program can store, `n` differs from `m` in the bytes of the variable `v` at most. -/
structure OnlyChanges (v : Variable) (m n : Machine) : Prop where
  others : ∀ w, w ≠ v → SameIn m n w
  settings : n.settings = m.settings
  palette : n.palette = m.palette
  size : n.memory.size = m.memory.size
  bytes : ∀ k, ¬v.Covers k → n.memory.get k = m.memory.get k

/-- What is written inside a variable changes that variable only. -/
theorem onlyChanges_write {m : Machine} (h : 17664 ≤ m.memory.size) {v : Variable} {a : Nat}
    {bytes : List UInt8} (hfirst : v.start ≤ a) (hlast : a + bytes.length ≤ v.start + v.length)
    (c : Console) :
    OnlyChanges v m { m with memory := m.memory.write a bytes, console := c } := by
  have hbytes : ∀ k, ¬v.Covers k → (m.memory.write a bytes).get k = m.memory.get k := by
    intro k hk
    apply Bank.get_write_outside
    unfold Variable.Covers at hk
    omega
  have hsize : (m.memory.write a bytes).size = m.memory.size := Bank.size_write ..
  refine ⟨fun w hw => ?_, rfl, rfl, hsize, hbytes⟩
  exact sameIn_of_bytes h (hsize ▸ h) fun k hk => hbytes k (Variable.apart hw hk)

theorem run_setNumeric {m : Machine} (h : 17664 ≤ m.memory.size) {name : Text} {i : Fin 26}
    (hname : numericAddress name = .ok (wordStart i : Int)) (v : Int) :
    ∃ c, (setNumeric name v).run m = (.ok (), { m with
      memory := m.memory.write (wordStart i)
        [Memory.byteOf (v % 65536), Memory.byteOf (v % 65536 / 256)]
      console := c }) := by
  have hle := wordStart_le i
  obtain ⟨c, hlog⟩ := run_report .debug "SET".toList (name ++ " = ".toList ++ Text.ofInt (v % 65536)) m
  have hwrite := Memory.run_writeWord_natCast (m := m.memory) (wordStart_lt_limit i) (by omega)
    (v % 65536)
  refine ⟨c, ?_⟩
  rw [setNumeric, logSet, debug, Run.run_bind_ok hlog, hname]
  simp [Run.run_bind, onMemory, hwrite]

theorem run_setNumeric_unnamed {name : Text} {e : Fault} (h : numericAddress name = .error e) (v : Int)
    (m : Machine) : ∃ console, (setNumeric name v).run m = (.error e, { m with console }) := by
  obtain ⟨console, hlog⟩ := run_report .debug "SET".toList
    (name ++ " = ".toList ++ Text.ofInt (v % 65536)) m
  refine ⟨console, ?_⟩
  rw [setNumeric, logSet, debug, Run.run_bind_ok hlog, h]
  rfl

theorem numeric_of_bytes {m : Machine} (h : 17664 ≤ m.memory.size) {i : Fin 26} {v : Int}
    (c : Console) :
    numeric { m with
      memory := m.memory.write (wordStart i) [Memory.byteOf v, Memory.byteOf (v / 256)]
      console := c } (numericName i) = .ok (v % 65536).toNat := by
  rw [numeric_numericName (by rwa [Bank.size_write]), ← Memory.toNat_byteOf_add v]
  simp [Bank.write]

/-- The line gives the command `c` first the number `v` and then the number `a`. -/
def TakesNumbers (m : Machine) (c : Command) (line : Text) (v a : Int) : Prop :=
  ∃ w tv ta rest, Token.parse line = .ok (.word w :: tv :: ta :: rest) ∧
    Command.ofName? (upper w) = some c ∧ tv.toNumeric m = .ok v ∧ ta.toNumeric m = .ok a

/-- A line that stores a number at an address does to the memory what its command does, and nothing else
but log the line. -/
theorem run_store {m : Machine} {c : Command} {line : Text} {v a : Int}
    (store : Int → Int → Run Memory Unit)
    (hc : ∀ hooks, c.routine hooks = do
      let v ← Call.nextNumeric
      let a ← Call.nextNumeric
      onMemory (store a v))
    (h : TakesNumbers m c line v a) :
    ∃ con, (runLine line).run m = (((store a v).run m.memory).1,
      { m with memory := ((store a v).run m.memory).2, console := con }) := by
  obtain ⟨w, tv, ta, rest, hparse, hname, hv, ha⟩ := h
  obtain ⟨con, hline⟩ := run_commandLine hparse hname m
  have hview : SameView m { m with console := con } := ⟨rfl, rfl, rfl⟩
  have hfirst : Arguments.Has (.word w :: tv :: ta :: rest) 1 tv := ⟨by decide, by decide, rfl⟩
  have hsecond : Arguments.Has (.word w :: tv :: ta :: rest) 2 ta := ⟨by decide, by decide, rfl⟩
  refine ⟨con, hline _ ⟨_, ⟨.word w :: tv :: ta :: rest, 3⟩⟩ ?_⟩
  simp only [hc, Call.nextNumeric, Run.run_bind, Call.run_nextAs _ hfirst, hview.toNumeric, hv]
  simp only [Int.reduceAdd, Call.run_nextAs _ hsecond, hview.toNumeric, ha]
  rfl

theorem numeric_of_byte {m : Machine} (h : 17664 ≤ m.memory.size) (i : Fin 26) (a : Nat) (v : Int)
    (c : Console) :
    numeric { m with memory := m.memory.write a [Memory.byteOf v], console := c } (numericName i) =
      .ok ((if wordStart i = a then (v % 256).toNat else (m.memory.get (wordStart i)).toNat) +
        256 * if wordStart i + 1 = a then (v % 256).toNat
          else (m.memory.get (wordStart i + 1)).toNat) := by
  rw [numeric_numericName (by rwa [Bank.size_write])]
  simp only [Bank.write, Bank.get_set, ← Memory.toNat_byteOf, apply_ite UInt8.toNat]

theorem run_pokeLine {m : Machine} (h : 17664 ≤ m.memory.size) {i : Fin 26} {line : Text} {v : Int}
    {a : Nat} (hfirst : wordStart i ≤ a) (hlast : a ≤ wordStart i + 1)
    (hline : TakesNumbers m .poke line v a) :
    ∃ c, (runLine line).run m =
      (.ok (), { m with memory := m.memory.write a [Memory.byteOf v], console := c }) := by
  have hle := wordStart_le i
  have hwrite := Memory.run_writeByte_natCast (m := m.memory) (a := a)
    (by unfold indexLimit; omega) (by omega) v
  obtain ⟨c, hrun⟩ := run_store Memory.writeByte (fun _ => rfl) hline
  rw [hwrite] at hrun
  exact ⟨c, hrun⟩

theorem run_pokeIntLine {m : Machine} (h : 17664 ≤ m.memory.size) {i : Fin 26} {line : Text} {v : Int}
    (hline : TakesNumbers m .pokeInt line v (wordStart i)) :
    ∃ c, (runLine line).run m = (.ok (), { m with
      memory := m.memory.write (wordStart i) [Memory.byteOf v, Memory.byteOf (v / 256)]
      console := c }) := by
  have hle := wordStart_le i
  have hwrite := Memory.run_writeWord_natCast (m := m.memory) (wordStart_lt_limit i) (by omega) v
  obtain ⟨c, hrun⟩ := run_store Memory.writeWord (fun _ => rfl) hline
  rw [hwrite] at hrun
  exact ⟨c, hrun⟩

/-- Storing in one variable leaves all others alone, and a numeric variable is the word at its address:
`POKE` and `POKEINT` at that address change this variable and no other. -/
structure KeepsApart (m : Machine) : Prop where
  setNumeric : ∀ i v, ∃ n, (setNumeric (numericName i) v).run m = (.ok (), n) ∧
    n.numeric (numericName i) = .ok (v % 65536).toNat ∧ OnlyChanges (.numeric i) m n
  setString : ∀ i t, ∃ n, (setString (stringName i) t).run m = (.ok (), n) ∧
    stringBlock n.memory i = storedBytes t ++ (stringBlock m.memory i).drop (storedBytes t).length ∧
    OnlyChanges (.string i) m n
  address : ∀ i : Fin 26, Keyword.variableStart.value m + 2 * (i : Nat) = (wordStart i : Int)
  word : ∀ i, m.numeric (numericName i) =
    .ok ((m.memory.get (wordStart i)).toNat + 256 * (m.memory.get (wordStart i + 1)).toNat)
  pokeLow : ∀ i line v, TakesNumbers m .poke line v (wordStart i) →
    ∃ n, (runLine line).run m = (.ok (), n) ∧ OnlyChanges (.numeric i) m n ∧
      n.numeric (numericName i) =
        .ok ((v % 256).toNat + 256 * (m.memory.get (wordStart i + 1)).toNat)
  pokeHigh : ∀ i line v, TakesNumbers m .poke line v (wordStart i + 1 : Nat) →
    ∃ n, (runLine line).run m = (.ok (), n) ∧ OnlyChanges (.numeric i) m n ∧
      n.numeric (numericName i) = .ok ((m.memory.get (wordStart i)).toNat + 256 * (v % 256).toNat)
  pokeInt : ∀ i line v, TakesNumbers m .pokeInt line v (wordStart i) →
    ∃ n, (runLine line).run m = (.ok (), n) ∧ OnlyChanges (.numeric i) m n ∧
      n.numeric (numericName i) = .ok (v % 65536).toNat

/-- In a memory of 64 KiB or more the variables are kept apart. -/
theorem keepsApart_of_size (m : Machine) (hsize : 65536 ≤ m.memory.size) : KeepsApart m := by
  have h : 17664 ≤ m.memory.size := by omega
  constructor
  case setNumeric =>
    intro i v
    obtain ⟨c, hrun⟩ := run_setNumeric h (numericAddress_numericName i) v
    refine ⟨_, hrun, ?_, onlyChanges_write h (Nat.le_refl _) (Nat.le_refl _) c⟩
    rw [numeric_of_bytes h c, Int.emod_emod_of_dvd v (by decide)]
  case setString =>
    intro i t
    have hlength := length_storedBytes_le t
    refine ⟨_, run_setString h i t, ?_, onlyChanges_write h (Nat.le_refl _) ?_ m.console⟩
    · rw [stringBlock_write, if_pos rfl]
    · simp only [Variable.start, Variable.length]
      omega
  case address => exact value_variableStart m
  case word => exact numeric_numericName h
  case pokeLow =>
    intro i line v hline
    obtain ⟨c, hrun⟩ := run_pokeLine h (Nat.le_refl _) (Nat.le_succ _) hline
    refine ⟨_, hrun, onlyChanges_write h (Nat.le_refl _) (Nat.le_succ _) c, ?_⟩
    rw [numeric_of_byte h, if_pos rfl, if_neg (by omega)]
  case pokeHigh =>
    intro i line v hline
    obtain ⟨c, hrun⟩ := run_pokeLine h (Nat.le_succ _) (Nat.le_refl _) hline
    refine ⟨_, hrun, onlyChanges_write h (Nat.le_succ _) (Nat.le_refl _) c, ?_⟩
    rw [numeric_of_byte h, if_neg (by omega), if_pos rfl]
  case pokeInt =>
    intro i line v hline
    obtain ⟨c, hrun⟩ := run_pokeIntLine h hline
    exact ⟨_, hrun, onlyChanges_write h (Nat.le_refl _) (Nat.le_refl _) c, numeric_of_bytes h c⟩

/-- A memory in which `A` is 263, `B` is 2313 and the byte behind them is set. -/
def someVariables : Machine := { memory := Memory.fresh.write 16384 [7, 1, 9, 9, 5] }

/-- `POKEINT 70000 VARIABLES` is one of the lines that this is about. -/
theorem keepsApart_someVariables :
    65536 ≤ someVariables.memory.size ∧
      TakesNumbers someVariables .pokeInt "POKEINT 70000 VARIABLES".toList 70000 (wordStart 0) ∧
      KeepsApart someVariables := by
  have hsize : 65536 ≤ someVariables.memory.size := by decide +kernel
  refine ⟨hsize, ?_, keepsApart_of_size someVariables hsize⟩
  exact ⟨"POKEINT".toList, .number 70000, .word "VARIABLES".toList, [], by decide +kernel,
    by decide +kernel, rfl, by decide +kernel⟩

end Machine
end BasicMachine
