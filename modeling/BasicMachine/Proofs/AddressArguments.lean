import BasicMachine.Proofs.DataLines
import BasicMachine.Proofs.LabelNames

/-! Numbers as addresses. No argument of a line that is accepted is ever read as a negative number: numerals
have no sign, variables hold words, and no command makes the settings that keywords stand for negative. So
the commands that take an address never count it from the end of the memory. -/
namespace BasicMachine

open Machine (numericName OnlyChanges)

theorem roundDiv_nonneg {n : Int} (h : 0 ≤ n) (d : Nat) : 0 ≤ roundDiv n d := by
  have hquotient : 0 ≤ n / (d : Int) := Int.ediv_nonneg h (Int.natCast_nonneg d)
  unfold roundDiv
  dsimp only
  split <;> omega

namespace Double

theorem scaledDiv_nonneg {n : Int} (h : 0 ≤ n) (d : Nat) (k : Int) : 0 ≤ scaledDiv roundDiv n d k := by
  unfold scaledDiv
  split
  · exact roundDiv_nonneg (Int.mul_nonneg h (Int.natCast_nonneg _)) d
  · exact roundDiv_nonneg h _

theorem mantissa_ofRatio_nonneg {n : Int} (h : 0 ≤ n) (d : Nat) : 0 ≤ (ofRatio n d).mantissa := by
  unfold ofRatio
  split
  · exact Int.le_refl 0
  · exact scaledDiv_nonneg h d _

theorem mantissa_mod_nonneg (x : Double) {n : Nat} (hn : n ≠ 0) : 0 ≤ (x.mod n).mantissa := by
  unfold mod
  split
  · exact mantissa_ofRatio_nonneg (Int.emod_nonneg _ (by omega)) 1
  · have hpower : powerOfTwo (-x.exponent).toNat ≠ 0 := Nat.ne_of_gt (Nat.pow_pos (by decide))
    exact mantissa_ofRatio_nonneg (Int.emod_nonneg _ (by exact_mod_cast Nat.mul_ne_zero hn hpower)) _

end Double

theorem Clock.ticks_nonneg (c : Clock) : 0 ≤ c.ticks :=
  Double.scaledDiv_nonneg (Double.mantissa_mod_nonneg _ (by decide)) 1 _

namespace Text

theorem exists_trimBoth_cons {p : Char → Bool} {c : Char} (hc : p c = false) (t : Text) :
    ∃ t', trimBoth p (c :: t) = c :: t' := by
  have hdrop : (c :: t).dropWhile p = c :: t := List.dropWhile_cons_of_neg (by simp [hc])
  have hfront : trimBoth p (c :: t) <+: c :: t := by
    rw [trimBoth, hdrop]
    exact List.rdropWhile_prefix p _
  have hmem : c ∈ trimBoth p (c :: t) := mem_trimBoth (List.mem_cons_self ..) hc
  cases htrim : trimBoth p (c :: t) with
  | nil => simp [htrim] at hmem
  | cons d t' =>
    rw [htrim] at hfront
    exact ⟨t', by rw [(List.cons_prefix_cons.mp hfront).1]⟩

theorem readInteger?_nonneg {c : Char} {t : Text} {n : Int} (hc : isNumeric c = true)
    (h : readInteger? (c :: t) = some n) : 0 ≤ n := by
  have hblank : isNumberBlank c = false := by
    have halnum : isAlphanumeric c = true := by simp [isAlphanumeric, hc]
    simp [isNumberBlank, isBlank_of_isAlphanumeric halnum]
  obtain ⟨t', htrim⟩ := exists_trimBoth_cons hblank t
  unfold readInteger? at h
  rw [htrim] at h
  split at h
  · next heq =>
    obtain ⟨rfl, -⟩ := List.cons.inj heq
    exact absurd hc (by decide)
  all_goals
    obtain ⟨k, -, rfl⟩ := Option.map_eq_some_iff.mp h
    exact Int.natCast_nonneg k

end Text

theorem Token.nonneg_of_parse {line : Text} {tokens : List Token} (h : parse line = .ok tokens) {n : Int}
    (hn : .number n ∈ tokens) : 0 ≤ n := by
  obtain ⟨parts, -, hparts⟩ := parse_comesFrom h
  have hall : ∀ t ∈ tokens, ∀ n, t = .number n → 0 ≤ n := by
    rw [forall_mem_iff_of_forall₂ (P := fun _ => True) hparts]
    · exact fun _ _ => trivial
    rintro part t hpart
    rw [iff_true]
    rintro n rfl
    cases hpart with
    | decoded hdecode =>
      cases decoded_of_decode hdecode with
      | number c t first n value => exact Text.readInteger?_nonneg first value
  exact hall _ hn n rfl

theorem stringAddress_nonneg {name : Text} {a : Int} (h : stringAddress name = .ok a) : 0 ≤ a := by
  obtain ⟨i, rfl⟩ := exists_blockStart h
  exact Int.natCast_nonneg _

namespace Machine

theorem InUse.setting {m : Machine} (h : InUse m) {name : Text} (hname : name ≠ "prog_size".toList) :
    m.setting name = (Settings.initial.lookup name).getD 0 := by
  induction h with
  | fresh _ hsettings => rw [Machine.setting, hsettings]
  | line _ line ih => rw [(keeps_runLine Frame.turning_redrawing.toOpen line _).2 name hname, ih]
  | turn _ ih => rw [(Frame.turning_redrawing.turn _).2 name hname, ih]
  | drawn _ _ ih => exact ih
  | outside _ _ hsettings _ ih => rw [← ih, Machine.setting, Machine.setting, hsettings]

theorem InUse.keyword_nonneg {m : Machine} (h : InUse m) (k : Keyword) : 0 ≤ k.value m := by
  cases k with
  | ramStart =>
    have hoffset : m.setting "prog_offset".toList = 0 := h.setting (by decide)
    rw [Keyword.value, hoffset]
    decide
  | ink =>
    have hink : m.setting "text".toList = 0 := h.setting (by decide)
    rw [Keyword.value, hink]
  | timer => exact m.clock.ticks_nonneg
  | progStart | variableStart | version => exact of_decide_eq_true rfl

/-- What a token of a line is read as is never negative. -/
theorem InUse.toNumeric_nonneg {m : Machine} (h : InUse m) {line : Text} {tokens : List Token}
    (hparse : Token.parse line = .ok tokens) {t : Token} (ht : t ∈ tokens) {v : Int}
    (hv : t.toNumeric m = .ok v) : 0 ≤ v := by
  cases t with
  | number n =>
    obtain rfl : n = v := Except.ok.inj hv
    exact Token.nonneg_of_parse hparse ht
  | numericVar name =>
    rw [Token.toNumeric] at hv
    obtain ⟨k, -, hk⟩ := bind_eq_ok_iff.mp hv
    obtain rfl : (k : Int) = v := Except.ok.inj hk
    exact Int.natCast_nonneg k
  | stringRef name => exact stringAddress_nonneg hv
  | char t =>
    rw [Token.toNumeric, Token.charCode] at hv
    split at hv
    · cases hv
    · split at hv
      · next b _ =>
        obtain rfl : (b.toNat : Int) = v := Except.ok.inj hv
        exact Int.natCast_nonneg _
      · cases hv
  | word w =>
    rw [Token.toNumeric] at hv
    split at hv
    · next k _ =>
      obtain rfl : k.value m = v := Except.ok.inj hv
      exact h.keyword_nonneg k
    · cases hv
  | _ => cases hv

end Machine

namespace Memory

/-- The place of an address that counts from the start of the memory. -/
def cell (m : Memory) (i : Nat) : Except Fault Nat :=
  if indexLimit ≤ i then .error .hugeIndex else if i < m.size then .ok i else .error .noSuchByte

def byteAt (m : Memory) (i : Nat) : Except Fault Nat := do
  return (m.get (← m.cell i)).toNat

def wordAt (m : Memory) (i : Nat) : Except Fault Nat := do
  let low ← m.byteAt i
  let high ← m.byteAt (i + 1)
  return low + 256 * high

def putByte (i : Nat) (v : Int) : Run Memory Unit := do
  let m ← get
  let k ← Run.ofExcept (m.cell i)
  set (m.set k (byteOf v))

def putWord (i : Nat) (v : Int) : Run Memory Unit := do
  putByte i v
  putByte (i + 1) (v / 256)

/-- The bytes in place of those at the same addresses, as far as there are any. -/
def putBlock (m : Memory) (i : Nat) (bytes : List UInt8) : Memory :=
  m.splice (min i m.size) (min (i + bytes.length) m.size) bytes

def blockAt (m : Memory) (i n : Nat) : List UInt8 :=
  m.slice (min i m.size) (min (i + n) m.size - min i m.size)

theorem address_natCast_eq (m : Memory) (i : Nat) : m.address i = m.cell i := by
  have hlow : ¬(i : Int) < -indexLimit := by
    unfold indexLimit
    omega
  have hneg : ¬(i : Int) < 0 := by omega
  have hinside : 0 ≤ (i : Int) ∧ (i : Int) < m.size ↔ i < m.size := by omega
  unfold address place cell
  simp only [hlow, hneg, false_or, if_false, hinside, Int.toNat_natCast]

theorem readByte_natCast (m : Memory) (i : Nat) : m.readByte i = m.byteAt i := by
  rw [readByte, address_natCast_eq, byteAt]

theorem readWord_natCast_eq (m : Memory) (i : Nat) : m.readWord i = m.wordAt i := by
  have hnext : (i : Int) + 1 = ((i + 1 : Nat) : Int) := by simp
  rw [readWord, hnext, readByte_natCast, readByte_natCast, wordAt]

theorem writeByte_natCast (i : Nat) (v : Int) : writeByte i v = putByte i v := by
  simp only [writeByte, address_natCast_eq, putByte]

theorem writeWord_natCast (i : Nat) (v : Int) : writeWord i v = putWord i v := by
  have hnext : (i : Int) + 1 = ((i + 1 : Nat) : Int) := by simp
  rw [writeWord, hnext, writeByte_natCast, writeByte_natCast, putWord]

theorem writeData_natCast_eq (m : Memory) (i : Nat) (bytes : List UInt8) :
    m.writeData i bytes = m.putBlock i bytes := by
  have hend : (i : Int) + bytes.length = ((i + bytes.length : Nat) : Int) := by simp
  have hmax : max (min i m.size) (min (i + bytes.length) m.size) = min (i + bytes.length) m.size := by omega
  rw [writeData, hend, bound_natCast, bound_natCast, hmax, putBlock]

theorem readData_natCast (m : Memory) (i n : Nat) : m.readData i n = m.blockAt i n := between_natCast m i n

end Memory

theorem Arguments.mem_of_current {a : Arguments} {t : Token} (h : a.current = .ok (some t)) : t ∈ a.tokens := by
  unfold current at h
  split at h
  · cases hplace : place .noSuchItem a.tokens.length a.index with
    | error e =>
      rw [hplace] at h
      cases h
    | ok i =>
      rw [hplace] at h
      exact List.mem_of_getElem? (Except.ok.inj h)
  · cases h

namespace Call

/-- No argument of the call is read as a negative number. -/
def CountsUp (c : Call) : Prop := ∀ t ∈ c.args.tokens, ∀ v, t.toNumeric c.machine = .ok v → 0 ≤ v

theorem run_nextAs_cases {α : Type} (read : Machine → Token → Except Fault α) (c : Call) :
    ∃ r args, (nextAs read).run c = (r, ⟨c.machine, args⟩) ∧ args.tokens = c.args.tokens ∧
      ∀ a, r = .ok a → ∃ t ∈ c.args.tokens, read c.machine t = .ok a := by
  rw [run_nextAs_current]
  cases hcurrent : c.args.current with
  | error e => exact ⟨_, c.args, rfl, rfl, by simp⟩
  | ok found =>
    cases found with
    | none => exact ⟨_, c.args, rfl, rfl, by simp⟩
    | some t => exact ⟨_, _, rfl, rfl, fun a ha => ⟨t, Arguments.mem_of_current hcurrent, ha⟩⟩

section Bind

variable {α β : Type} {c : Call}

theorem run_nextAs_bind {read : Machine → Token → Except Fault α} {f g : α → Run Call β}
    (h : ∀ a args, args.tokens = c.args.tokens → (∃ t ∈ c.args.tokens, read c.machine t = .ok a) →
      (f a).run ⟨c.machine, args⟩ = (g a).run ⟨c.machine, args⟩) :
    (nextAs read >>= f).run c = (nextAs read >>= g).run c := by
  obtain ⟨r, args, hrun, hargs, hread⟩ := run_nextAs_cases read c
  cases r with
  | error e => rw [Run.run_bind_error hrun, Run.run_bind_error hrun]
  | ok a =>
    rw [Run.run_bind_ok hrun, Run.run_bind_ok hrun]
    exact h a args hargs (hread a rfl)

theorem CountsUp.of_tokens (h : c.CountsUp) {args : Arguments} (hargs : args.tokens = c.args.tokens) :
    CountsUp ⟨c.machine, args⟩ := by
  intro t ht
  exact h t (hargs ▸ ht)

end Bind

end Call

namespace Machine

/-- Stores the bytes of a file from an address on. -/
def loadAt (name : Text) (i : Nat) : Action Unit := do
  let bytes ← ask fun m => m.disk.load name
  modify fun m => { m with memory := m.memory.putBlock i bytes }

def saveAt (name : Text) (i n : Nat) : Action Unit := do
  onDisk (Disk.save name ((← get).memory.blockAt i n))

theorem loadFile_natCast (name : Text) (i : Nat) : loadFile name i = loadAt name i := by
  simp only [loadFile, Memory.writeData_natCast_eq, loadAt]

theorem saveFile_natCast (name : Text) (i n : Nat) : saveFile name i n = saveAt name i n := by
  simp only [saveFile, Memory.readData_natCast, saveAt]

end Machine

namespace Command

open Call

/-- Takes the next argument as an address from the start of the memory, and refuses a negative number. -/
def nextIndex (refusal : Fault) : Run Call Nat := do
  let a ← nextNumeric
  if a < 0 then throw refusal else return a.toNat

/-- The commands that take an address, with addresses that cannot count from the end. -/
def fromStart? (refusal : Fault) : Command → Option Routine
  | peek => some do
    let name ← nextNumericVar
    let i ← nextIndex refusal
    Machine.setNumeric name (← Machine.ask fun m => m.memory.byteAt i)
  | peekInt => some do
    let name ← nextNumericVar
    let i ← nextIndex refusal
    Machine.setNumeric name (← Machine.ask fun m => m.memory.wordAt i)
  | poke => some do
    let v ← nextNumeric
    let i ← nextIndex refusal
    Machine.onMemory (Memory.putByte i v)
  | pokeInt => some do
    let v ← nextNumeric
    let i ← nextIndex refusal
    Machine.onMemory (Memory.putWord i v)
  | load => some <| attempt (do
      let name ← nextString
      let i ← nextIndex refusal
      let n ← sizeOf name
      Machine.loadAt name i
      return n) refused setSize
  | save => some <| attempt (do
      let name ← nextString
      let i ← nextIndex refusal
      let n ← nextIndex refusal
      if ← Run.ofExcept ((← get).machine.disk.hasFile name) then setResult 2
      else
        Machine.saveAt name i n
        setResult 0) refused fun _ => setResult 0
  | _ => none

/-- An argument that cannot be negative is as good as an address from the start. -/
theorem run_nextIndex_bind {α : Type} {c : Call} (hc : c.CountsUp) (refusal : Fault) {f : Int → Run Call α}
    {g : Nat → Run Call α}
    (h : ∀ (i : Nat) args, args.tokens = c.args.tokens →
      (f i).run ⟨c.machine, args⟩ = (g i).run ⟨c.machine, args⟩) :
    (nextNumeric >>= f).run c = (nextIndex refusal >>= g).run c := by
  rw [nextIndex, bind_assoc]
  apply run_nextAs_bind
  rintro a args hargs ⟨t, ht, hread⟩
  have ha : 0 ≤ a := hc t ht a hread
  obtain ⟨i, rfl⟩ := Int.eq_ofNat_of_zero_le ha
  rw [if_neg (by omega), pure_bind, Int.toNat_natCast]
  exact h i args hargs

theorem run_nextAs_nextIndex_bind {α β : Type} {read : Machine → Token → Except Fault β} {c : Call}
    (hc : c.CountsUp) (refusal : Fault) {f : β → Int → Run Call α} {g : β → Nat → Run Call α}
    (h : ∀ b (i : Nat) args, args.tokens = c.args.tokens →
      (f b i).run ⟨c.machine, args⟩ = (g b i).run ⟨c.machine, args⟩) :
    (nextAs read >>= fun b => nextNumeric >>= f b).run c =
      (nextAs read >>= fun b => nextIndex refusal >>= g b).run c := by
  apply run_nextAs_bind
  intro b args hargs _
  apply run_nextIndex_bind (hc.of_tokens hargs)
  intro i args' hargs'
  exact h b i args' (hargs'.trans hargs)

theorem run_attempt_congr {α : Type} {x y : Run Call α} {c : Call} (h : x.run c = y.run c)
    (code : Fault → Option Int) (done : α → Routine) :
    (attempt x code done).run c = (attempt y code done).run c := by
  rw [run_attempt, run_attempt, h]

/-- Where no argument is negative, the commands do as if no address could count from the end. -/
theorem run_routine_fromStart {refusal : Fault} {c : Command} {r : Routine}
    (hr : fromStart? refusal c = some r) (h : Hooks) {call : Call} (hcall : call.CountsUp) :
    (c.routine h).run call = r.run call := by
  cases c with
  | peek =>
    obtain rfl := Option.some.inj hr
    apply run_nextAs_nextIndex_bind hcall
    intro name i args _
    simp only [Memory.readByte_natCast]
  | peekInt =>
    obtain rfl := Option.some.inj hr
    apply run_nextAs_nextIndex_bind hcall
    intro name i args _
    simp only [Memory.readWord_natCast_eq]
  | poke =>
    obtain rfl := Option.some.inj hr
    apply run_nextAs_nextIndex_bind hcall
    intro v i args _
    simp only [Memory.writeByte_natCast]
  | pokeInt =>
    obtain rfl := Option.some.inj hr
    apply run_nextAs_nextIndex_bind hcall
    intro v i args _
    simp only [Memory.writeWord_natCast]
  | load =>
    obtain rfl := Option.some.inj hr
    apply run_attempt_congr
    apply run_nextAs_nextIndex_bind hcall
    intro name i args _
    simp only [Machine.loadFile_natCast]
  | save =>
    obtain rfl := Option.some.inj hr
    apply run_attempt_congr
    apply run_nextAs_nextIndex_bind hcall
    intro name i args hargs
    -- The number of bytes is an argument too, and no more negative than the address.
    apply run_nextIndex_bind (hcall.of_tokens hargs)
    intro n args' _
    simp only [Machine.saveFile_natCast]
  | _ => cases hr

end Command

namespace Machine

section Lines

variable {m : Machine} {line : Text} {i : Fin 26} {t : Token} {a : Nat}

theorem run_peek (h : Calls line .peek [.numericVar (numericName i), t])
    (ha : t.toNumeric m = .ok a) :
    ∃ con, (runLine line).run m = match m.memory.byteAt a with
      | .ok b => (setNumeric (numericName i) b).run { m with console := con }
      | .error e => (.error e, { m with console := con }) := by
  obtain ⟨w, rest, hparse, hcommand⟩ := h
  obtain ⟨con, hline⟩ := run_commandLine hparse hcommand m
  have hview : SameView m { m with console := con } := ⟨rfl, rfl, rfl⟩
  have hfirst : Arguments.Has (.word w :: ([.numericVar (numericName i), t] ++ rest)) 1
      (.numericVar (numericName i)) := ⟨by decide, by decide, rfl⟩
  have hsecond : Arguments.Has (.word w :: ([.numericVar (numericName i), t] ++ rest)) 2 t :=
    ⟨by decide, by decide, rfl⟩
  refine ⟨con, hline _ ⟨_, ⟨.word w :: ([.numericVar (numericName i), t] ++ rest), 3⟩⟩ ?_⟩
  change Command.runPeek.run _ = _
  simp only [Command.runPeek, Call.nextNumericVar, Call.nextNumeric, Run.run_bind, Call.run_nextAs _ hfirst,
    Token.toNumericVar, Int.reduceAdd, Call.run_nextAs _ hsecond, hview.toNumeric, ha, ask]
  cases hbyte : m.memory.byteAt a <;> simp [Memory.readByte_natCast, hbyte]

theorem run_peek_inside (hsize : 17664 ≤ m.memory.size)
    (h : Calls line .peek [.numericVar (numericName i), t]) (ha : t.toNumeric m = .ok a)
    (hinside : a < m.memory.size) (hlimit : a < indexLimit) :
    ∃ n, (runLine line).run m = (.ok (), n) ∧ n.numeric (numericName i) = .ok (m.memory.get a).toNat ∧
      OnlyChanges (.numeric i) m n := by
  obtain ⟨con, hrun⟩ := run_peek h ha
  have hview : SameView m { m with console := con } := ⟨rfl, rfl, rfl⟩
  have hbyte : m.memory.byteAt a = .ok (m.memory.get a).toNat := by
    rw [Memory.byteAt, Memory.cell, if_neg (by omega), if_pos hinside]
    rfl
  obtain ⟨n, hset, hvalue, hchanges⟩ := exists_setNumeric (m := { m with console := con }) (i := i) hsize
    (m.memory.get a).toNat
  have hsmall := (m.memory.get a).toNat_lt
  refine ⟨n, ?_, ?_, .of_sameView hview rfl hchanges⟩
  · rw [hrun, hbyte]
    exact hset
  · rw [hvalue]
    congr 1
    omega

theorem run_peek_outside (h : Calls line .peek [.numericVar (numericName i), t]) (ha : t.toNumeric m = .ok a)
    (houtside : m.memory.size ≤ a ∨ indexLimit ≤ a) :
    ∃ con e, (runLine line).run m = (.error e, { m with console := con }) ∧
      e ∈ [Fault.noSuchByte, Fault.hugeIndex] := by
  obtain ⟨con, hrun⟩ := run_peek h ha
  by_cases hlimit : indexLimit ≤ a
  · have hbyte : m.memory.byteAt a = .error .hugeIndex := by
      rw [Memory.byteAt, Memory.cell, if_pos hlimit]
      rfl
    exact ⟨con, .hugeIndex, by rw [hrun, hbyte], by simp⟩
  · have hbyte : m.memory.byteAt a = .error .noSuchByte := by
      rw [Memory.byteAt, Memory.cell, if_neg hlimit, if_neg (by omega)]
      rfl
    exact ⟨con, .noSuchByte, by rw [hrun, hbyte], by simp⟩

end Lines

/-- The numbers that a machine reads count up from zero. A line is accepted with tokens that are read as no
negative number. A command that takes an address, be it the line or stand in the rest of it, does as if it refused
to count from the end. And `PEEK` gives the byte at its address, or fails where there is none. -/
structure CountsFromStart (m : Machine) : Prop where
  value : ∀ line tokens, Token.parse line = .ok tokens → ∀ t ∈ tokens, ∀ v, t.toNumeric m = .ok v → 0 ≤ v
  access : ∀ line tokens, Token.parse line = .ok tokens → ∀ w args, .word w :: args <:+ tokens →
    ∀ c refusal r, Command.ofName? (upper w) = some c → Command.fromStart? refusal c = some r →
    (runTokens (.word w :: args)).run m = (Command.withArguments (.word w :: args) (do Call.skip; r)).run m
  inside : ∀ line i t (a : Int), Calls line .peek [.numericVar (numericName i), t] → t.toNumeric m = .ok a →
    a < m.memory.size → a < indexLimit →
    ∃ n, (runLine line).run m = (.ok (), n) ∧
      n.numeric (numericName i) = .ok (m.memory.get a.toNat).toNat ∧ OnlyChanges (.numeric i) m n
  outside : ∀ line i t (a : Int), Calls line .peek [.numericVar (numericName i), t] → t.toNumeric m = .ok a →
    m.memory.size ≤ a ∨ indexLimit ≤ a →
    ∃ con e, (runLine line).run m = (.error e, { m with console := con }) ∧
      e ∈ [Fault.noSuchByte, Fault.hugeIndex]

theorem InUse.exists_address {m : Machine} (h : InUse m) {line : Text} {i : Fin 26} {t : Token} {v : Int}
    (hline : Calls line .peek [.numericVar (numericName i), t]) (hv : t.toNumeric m = .ok v) :
    ∃ a : Nat, v = a := by
  obtain ⟨w, rest, hparse, -⟩ := hline
  exact Int.eq_ofNat_of_zero_le (h.toNumeric_nonneg hparse (by simp) hv)

/-- On a machine that is in use no command counts an address from the end of the memory. -/
theorem addresses_count_from_start (m : Machine) (hm : InUse m) : CountsFromStart m where
  value _ _ hparse _ ht _ hv := hm.toNumeric_nonneg hparse ht hv
  access line tokens hparse w args hsuffix c refusal r hname hr := by
    have hcall : Call.CountsUp ⟨m, ⟨.word w :: args, 1⟩⟩ := fun t ht v hv =>
      hm.toNumeric_nonneg hparse (hsuffix.mem ht) hv
    have hdispatch : (Command.dispatch Debugger.hooks).run ⟨m, ⟨.word w :: args, 0⟩⟩ =
        (do Call.skip; r : Routine).run ⟨m, ⟨.word w :: args, 0⟩⟩ := by
      rw [Command.run_dispatch_command _ _ hname, Command.run_routine_fromStart hr _ hcall]
      rfl
    exact congrArg (fun p => (p.1, p.2.machine)) hdispatch
  inside line i t v hline hv hinside hlimit := by
    obtain ⟨a, rfl⟩ := hm.exists_address hline hv
    exact run_peek_inside (Nat.le_trans (by decide) hm.reachable.size) hline hv (by omega) (by omega)
  outside line i t v hline hv houtside := by
    obtain ⟨a, rfl⟩ := hm.exists_address hline hv
    exact run_peek_outside hline hv (by omega)

/-- One below zero is stored as the highest word, and that is the last address of the memory. -/
theorem addresses_count_from_start_below_zero :
    let m := ((runLine "A = 0 - 1".toList).run {}).2
    InUse m ∧ Calls "PEEK B A".toList .peek [.numericVar (numericName 1), .numericVar (numericName 0)] ∧
      (Token.numericVar (numericName 0)).toNumeric m = .ok 65535 ∧ CountsFromStart m := by
  have huse : InUse ((runLine "A = 0 - 1".toList).run {}).2 := .line (.fresh rfl rfl rfl) _
  refine ⟨huse, ⟨"PEEK".toList, [], ?_, ?_⟩, ?_, addresses_count_from_start _ huse⟩
  all_goals decide +kernel

end Machine
end BasicMachine
