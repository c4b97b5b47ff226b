import BasicMachine.Proofs.MemoryGrowth

/-! Numbers that are stored at an address. A byte is stored or it is refused. A word is stored as two bytes, and
the second is looked at only when the first is in its place: at the last address the word is refused and its low
byte stays behind. Everywhere else it is stored whole, or nothing is. -/
namespace BasicMachine

namespace Memory

/-- The address leads to the byte with the number `i`: it counts from the start, or it is negative and counts
from the end. Addresses have 64 bits. -/
structure LeadsTo (m : Memory) (a : Int) (i : Nat) : Prop where
  small : -indexLimit ≤ a ∧ a < indexLimit
  inside : i < m.size
  counts : a = i ∨ a = i - m.size

def HasPlace (m : Memory) (a : Int) : Prop := ∃ i, m.LeadsTo a i

section Places

variable {m : Memory} {a : Int} {i j : Nat}

theorem address_eq_ok_iff : m.address a = .ok i ↔ m.LeadsTo a i := by
  have hlimits : ¬(a < -indexLimit ∨ indexLimit ≤ a) ↔ -indexLimit ≤ a ∧ a < indexLimit := by omega
  obtain ⟨j, hj, hcases⟩ : ∃ j, (if a < 0 then a + m.size else a) = j ∧
      (a < 0 ∧ j = a + m.size ∨ 0 ≤ a ∧ j = a) := by
    refine ⟨_, rfl, ?_⟩
    split <;> omega
  simp only [address, place, hj]
  split
  · next hhuge => exact iff_of_false (by simp) fun h => hlimits.mpr h.small hhuge
  · next hsmall =>
    split
    · next hinside =>
      rw [Except.ok.injEq]
      constructor
      · rintro rfl
        exact ⟨hlimits.mp hsmall, by omega, by omega⟩
      · rintro ⟨-, hi, hcounts⟩
        omega
    · next houtside =>
      refine iff_of_false (by simp) fun h => houtside ?_
      obtain ⟨-, hi, hcounts⟩ := h
      omega

theorem address_eq_error (h : ¬m.HasPlace a) : ∃ e, m.address a = .error e := by
  cases haddress : m.address a with
  | error e => exact ⟨e, rfl⟩
  | ok i => exact absurd ⟨i, address_eq_ok_iff.mp haddress⟩ h

theorem LeadsTo.of_size {m' : Memory} (h : m.LeadsTo a i) (hsize : m'.size = m.size) : m'.LeadsTo a i := by
  obtain ⟨hsmall, hinside, hcounts⟩ := h
  rw [← hsize] at hinside hcounts
  exact ⟨hsmall, hinside, hcounts⟩

theorem LeadsTo.unique (h : m.LeadsTo a i) (h' : m.LeadsTo a j) : i = j :=
  Except.ok.inj ((address_eq_ok_iff.mpr h).symm.trans (address_eq_ok_iff.mpr h'))

/-- Neighbours are different bytes, unless there is only one byte. -/
theorem LeadsTo.ne_next (h : m.LeadsTo a i) (h' : m.LeadsTo (a + 1) j) (hsize : 1 < m.size) : i ≠ j := by
  rintro rfl
  have hfirst := h.counts
  have hsecond := h'.counts
  omega

/-- The address behind a byte has a byte too, unless it is past the end or past the largest address. -/
theorem LeadsTo.past_iff (h : m.LeadsTo a i) :
    ¬m.HasPlace (a + 1) ↔ a + 1 = min (m.size : Int) indexLimit := by
  have hinside := h.inside
  have hcounts := h.counts
  have hsmall := h.small
  constructor
  · intro hpast
    by_contra hother
    apply hpast
    -- Behind the last byte counted from the end stands the first one.
    refine ⟨if a = -1 then 0 else i + 1, ⟨by omega, ?_, ?_⟩⟩
    · split <;> omega
    · split <;> omega
  · rintro hlast ⟨j, hj⟩
    have hjinside := hj.inside
    have hjcounts := hj.counts
    have hjsmall := hj.small
    omega

theorem leadsTo_last (hsize : 0 < m.size) (hlast : a + 1 = min (m.size : Int) indexLimit) :
    m.LeadsTo a a.toNat := by
  unfold indexLimit at hlast
  refine ⟨?_, by omega, by omega⟩
  unfold indexLimit
  omega

end Places

/-- `m'` is `m` with the bytes at the addresses from `a` on, and with no other byte changed. -/
structure Stores (m : Memory) (a : Int) (bytes : List UInt8) (m' : Memory) : Prop where
  size : m'.size = m.size
  each : ∀ (k : Nat) (b : UInt8), bytes[k]? = some b → ∃ i, m.LeadsTo (a + k) i ∧ m'.get i = b
  others : ∀ i, (∀ k < bytes.length, ¬m.LeadsTo (a + k) i) → m'.get i = m.get i

section Stored

variable {m : Memory} {a : Int} {i j : Nat} (h : m.LeadsTo a i) (b : UInt8)
include h

/-- A memory that differs at one place only has the byte of that place stored. -/
theorem stores_of_get {m' : Memory} (hsize : m'.size = m.size)
    (hget : ∀ k, m'.get k = if k = i then b else m.get k) : m.Stores a [b] m' where
  size := hsize
  each k c hk := by
    obtain ⟨rfl, rfl⟩ : k = 0 ∧ b = c := by
      cases k with
      | zero => simpa using hk
      | succ k => simp at hk
    exact ⟨i, by simpa using h, by rw [hget, if_pos rfl]⟩
  others k hk := by
    have hother : k ≠ i := by
      rintro rfl
      exact hk 0 (by simp) (by simpa using h)
    rw [hget, if_neg hother]

theorem stores_byte : m.Stores a [b] (m.set i b) :=
  stores_of_get h b (Bank.size_set ..) fun _ => Bank.get_set ..

theorem stores_word (h' : m.LeadsTo (a + 1) j) (hne : i ≠ j) (c : UInt8) :
    m.Stores a [b, c] ((m.set i b).set j c) where
  size := by rw [Bank.size_set, Bank.size_set]
  each k d hk := by
    rcases k with _ | _ | k
    · obtain rfl : b = d := by simpa using hk
      exact ⟨i, by simpa using h, by rw [Bank.get_set, if_neg hne, Bank.get_set, if_pos rfl]⟩
    · obtain rfl : c = d := by simpa using hk
      exact ⟨j, h', by rw [Bank.get_set, if_pos rfl]⟩
    · simp at hk
  others k hk := by
    have hfirst : k ≠ i := by
      rintro rfl
      exact hk 0 (by simp) (by simpa using h)
    have hsecond : k ≠ j := by
      rintro rfl
      exact hk 1 (by simp) h'
    rw [Bank.get_set, if_neg hsecond, Bank.get_set, if_neg hfirst]

end Stored

def SameBytes (m m' : Memory) : Prop := m'.size = m.size ∧ ∀ i, m'.get i = m.get i

theorem sameBytes_set_iff {m : Memory} {i : Nat} {b : UInt8} : m.SameBytes (m.set i b) ↔ m.get i = b := by
  constructor
  · rintro ⟨-, hsame⟩
    rw [← hsame i, Bank.get_set, if_pos rfl]
  · intro hbyte
    refine ⟨Bank.size_set .., fun k => ?_⟩
    rw [Bank.get_set]
    split
    · next hk => rw [hk, hbyte]
    · rfl

/-- The number that the bytes stand for, the low byte first. -/
def littleEndian : List UInt8 → Nat
  | [] => 0
  | b :: rest => b.toNat + 256 * littleEndian rest

end Memory

/-- How much of a number is stored: a byte with `POKE`, or a word with `POKEINT`. -/
inductive Width where
  | byte | word
  deriving DecidableEq

namespace Width

open Memory

def command : Width → Command
  | byte => .poke
  | word => .pokeInt

def count : Width → Nat
  | byte => 1
  | word => 2

def modulus : Width → Int
  | byte => 256
  | word => 65536

def store : Width → Int → Int → Run Memory Unit
  | byte => writeByte
  | word => writeWord

/-- The bytes are those of the number `v`, as far as they go. -/
def Spells (w : Width) (v : Int) (bytes : List UInt8) : Prop :=
  bytes.length = w.count ∧ (littleEndian bytes : Int) = v % w.modulus

theorem spells_byte (v : Int) : byte.Spells v [byteOf v] := by
  have hvalue := toNat_byteOf v
  refine ⟨rfl, ?_⟩
  simp only [littleEndian, modulus]
  omega

theorem spells_word (v : Int) : word.Spells v [byteOf v, byteOf (v / 256)] := by
  have hvalue := toNat_byteOf_add v
  refine ⟨rfl, ?_⟩
  simp only [littleEndian, modulus]
  omega

/-- What storing a number can come to: all of its bytes are stored, or nothing is, or the first of two. -/
inductive Outcome (w : Width) (m : Memory) (a v : Int) : Except Fault Unit × Memory → Prop
  | whole {bytes : List UInt8} {m' : Memory} (places : ∀ k < w.count, m.HasPlace (a + k))
      (spells : w.Spells v bytes) (stored : m.Stores a bytes m') : Outcome w m a v (.ok (), m')
  | nothing {e : Fault} (place : ¬m.HasPlace a) : Outcome w m a v (.error e, m)
  | half {e : Fault} {i : Nat} (wide : w = word) (leads : m.LeadsTo a i) (past : ¬m.HasPlace (a + 1)) :
      Outcome w m a v (.error e, m.set i (byteOf v))

theorem outcome_writeByte (m : Memory) (a v : Int) : Outcome byte m a v ((writeByte a v).run m) := by
  by_cases hplace : m.HasPlace a
  · obtain ⟨i, hi⟩ := hplace
    rw [run_writeByte_ok (address_eq_ok_iff.mpr hi)]
    refine .whole (fun k hk => ?_) (spells_byte v) (stores_byte hi _)
    obtain rfl : k = 0 := Nat.lt_one_iff.mp hk
    exact ⟨i, by simpa using hi⟩
  · obtain ⟨e, he⟩ := address_eq_error hplace
    rw [run_writeByte_error he]
    exact .nothing hplace

/-- A word goes through only if both of its bytes do, and the first of them is not taken back. -/
theorem outcome_writeWord {m : Memory} (hsize : 1 < m.size) (a v : Int) :
    Outcome word m a v ((writeWord a v).run m) := by
  by_cases hplace : m.HasPlace a
  · obtain ⟨i, hi⟩ := hplace
    have hlow := run_writeByte_ok (address_eq_ok_iff.mpr hi) v
    rw [writeWord, Run.run_bind_ok hlow]
    by_cases hnext : m.HasPlace (a + 1)
    · obtain ⟨j, hj⟩ := hnext
      rw [run_writeByte_ok (address_eq_ok_iff.mpr (hj.of_size (Bank.size_set ..)))]
      refine .whole (fun k hk => ?_) (spells_word v) (stores_word hi _ hj (hi.ne_next hj hsize) _)
      obtain rfl | rfl : k = 0 ∨ k = 1 := by
        simp only [count] at hk
        omega
      · exact ⟨i, by simpa using hi⟩
      · exact ⟨j, hj⟩
    · have hout : ¬HasPlace (m.set i (byteOf v)) (a + 1) := by
        rintro ⟨j, hj⟩
        exact hnext ⟨j, hj.of_size (Bank.size_set ..).symm⟩
      obtain ⟨e, he⟩ := address_eq_error hout
      rw [run_writeByte_error he]
      exact .half rfl hi hnext
  · obtain ⟨e, he⟩ := address_eq_error hplace
    rw [writeWord, Run.run_bind_error (run_writeByte_error he v)]
    exact .nothing hplace

theorem outcome (w : Width) {m : Memory} (hsize : 1 < m.size) (a v : Int) :
    Outcome w m a v ((w.store a v).run m) := by
  cases w with
  | byte => exact outcome_writeByte m a v
  | word => exact outcome_writeWord hsize a v

theorem routine_command (w : Width) (h : Hooks) : w.command.routine h = (do
    let v ← Call.nextNumeric
    let a ← Call.nextNumeric
    Machine.onMemory (w.store a v)) := by
  cases w <;> rfl

end Width

namespace Machine

variable {m : Machine} {line : Text} {c : Command} {v a : Int}

theorem TakesNumbers.unique {v' a' : Int} (h : TakesNumbers m c line v a) (h' : TakesNumbers m c line v' a') :
    v' = v ∧ a' = a := by
  obtain ⟨w, tv, ta, rest, hparse, -, hv, ha⟩ := h
  obtain ⟨w', tv', ta', rest', hparse', -, hv', ha'⟩ := h'
  cases hparse.symm.trans hparse'
  exact ⟨Except.ok.inj (hv'.symm.trans hv), Except.ok.inj (ha'.symm.trans ha)⟩

theorem TakesNumbers.exists_iff {P : Int → Int → Prop} (h : TakesNumbers m c line v a) :
    (∃ v' a', TakesNumbers m c line v' a' ∧ P v' a') ↔ P v a := by
  constructor
  · rintro ⟨v', a', h', hP⟩
    obtain ⟨rfl, rfl⟩ := h.unique h'
    exact hP
  · exact fun hP => ⟨v, a, h, hP⟩

/-- A line that does not give two numbers fails before it stores anything. -/
theorem run_store_unread {store : Int → Int → Run Memory Unit}
    (hc : ∀ hooks, c.routine hooks = do
      let v ← Call.nextNumeric
      let a ← Call.nextNumeric
      onMemory (store a v))
    {w : Text} {ts : List Token} (hparse : Token.parse line = .ok (.word w :: ts))
    (hname : Command.ofName? (upper w) = some c) (h : ∀ v a, ¬TakesNumbers m c line v a) :
    ∃ e con, (runLine line).run m = (.error e, { m with console := con }) := by
  obtain ⟨con, hline⟩ := run_commandLine hparse hname m
  have hview : SameView m { m with console := con } := ⟨rfl, rfl, rfl⟩
  have hfails {e : Fault} {args : Arguments} (hrun : (c.routine Debugger.hooks).run
      ⟨{ m with console := con }, ⟨.word w :: ts, 1⟩⟩ = (.error e, ⟨{ m with console := con }, args⟩)) :
      ∃ e con, (runLine line).run m = (.error e, { m with console := con }) := ⟨e, con, hline _ _ hrun⟩
  rw [hc, Call.nextNumeric] at hfails
  cases ts with
  | nil => exact hfails (Run.run_bind_error (Call.run_nextAs_end _ (by simp)))
  | cons tv ts =>
    have hfirst : Arguments.Has (.word w :: tv :: ts) 1 tv := ⟨by decide, by decide, rfl⟩
    have hread := Call.run_nextAs (m := { m with console := con }) Token.toNumeric hfirst
    rw [hview.toNumeric] at hread
    cases hv : tv.toNumeric m with
    | error e =>
      rw [hv] at hread
      exact hfails (Run.run_bind_error hread)
    | ok v =>
      rw [hv] at hread
      rw [Run.run_bind_ok hread] at hfails
      cases ts with
      | nil => exact hfails (Run.run_bind_error (Call.run_nextAs_end _ (by simp)))
      | cons ta rest =>
        have hsecond : Arguments.Has (.word w :: tv :: ta :: rest) 2 ta := ⟨by decide, by decide, rfl⟩
        have hread' := Call.run_nextAs (m := { m with console := con }) Token.toNumeric hsecond
        rw [hview.toNumeric] at hread'
        cases ha : ta.toNumeric m with
        | error e =>
          rw [ha] at hread'
          exact hfails (Run.run_bind_error hread')
        | ok a => exact absurd ⟨w, tv, ta, rest, hparse, hname, hv, ha⟩ (h v a)

/-- The line stores the number that it gives at the address that it gives, and changes no other byte. -/
def StoresWhole (w : Width) (m : Machine) (line : Text) : Prop :=
  ∃ v a bytes n, TakesNumbers m w.command line v a ∧ w.Spells v bytes ∧
    (runLine line).run m = (.ok (), n) ∧ m.memory.Stores a bytes n.memory

/-- The line fails and leaves the memory as it was. -/
def StoresNothing (m : Machine) (line : Text) : Prop :=
  ∃ e n, (runLine line).run m = (.error e, n) ∧ m.memory.SameBytes n.memory

/-- The line gives a word and the last address, where the low byte of the word does not stand yet. -/
def Tears (w : Width) (m : Machine) (line : Text) : Prop :=
  w = .word ∧ ∃ v a, TakesNumbers m w.command line v a ∧ a + 1 = min (m.memory.size : Int) indexLimit ∧
    ((m.memory.get a.toNat).toNat : Int) ≠ v % 256

theorem tears_iff {w : Width} (h : TakesNumbers m w.command line v a) :
    Tears w m line ↔ w = .word ∧ a + 1 = min (m.memory.size : Int) indexLimit ∧
      ((m.memory.get a.toNat).toNat : Int) ≠ v % 256 :=
  and_congr_right fun _ => h.exists_iff

/-- What a line that stores a number comes to: it stores all of the number or nothing exactly unless it tears a
word apart, it stores all of it exactly if every byte has a place, and of a torn word the low byte is stored. -/
structure StoresDecided (w : Width) (m : Machine) (line : Text) : Prop where
  wholeOrNothing : StoresWhole w m line ∨ StoresNothing m line ↔ ¬Tears w m line
  whole : StoresWhole w m line ↔
    ∃ v a, TakesNumbers m w.command line v a ∧ ∀ k < w.count, m.memory.HasPlace (a + k)
  torn : Tears w m line → ∃ v a b e n, TakesNumbers m w.command line v a ∧ Width.byte.Spells v [b] ∧
    (runLine line).run m = (.error e, n) ∧ m.memory.Stores a [b] n.memory

theorem not_storesWhole {w : Width} {e : Fault} {n : Machine} (hrun : (runLine line).run m = (.error e, n)) :
    ¬StoresWhole w m line := by
  rintro ⟨_, _, _, _, -, -, hok, -⟩
  rw [hrun] at hok
  cases hok

theorem storesNothing_iff {e : Fault} {n : Machine} (hrun : (runLine line).run m = (.error e, n)) :
    StoresNothing m line ↔ m.memory.SameBytes n.memory := by
  constructor
  · rintro ⟨e', n', hrun', hsame⟩
    obtain rfl : n = n' := (Prod.mk.inj (hrun.symm.trans hrun')).2
    exact hsame
  · exact fun hsame => ⟨e, n, hrun, hsame⟩

theorem storesDecided_of_takesNumbers {w : Width} (hsize : 65536 ≤ m.memory.size)
    (h : TakesNumbers m w.command line v a) : StoresDecided w m line := by
  obtain ⟨con, hrun⟩ := run_store w.store w.routine_command h
  have houtcome := w.outcome (by omega : 1 < m.memory.size) a v
  have htears := tears_iff h
  generalize (w.store a v).run m.memory = r at hrun houtcome
  cases houtcome with
  | @whole bytes m' places spells stored =>
    have hwhole : StoresWhole w m line := ⟨v, a, bytes, _, h, spells, hrun, stored⟩
    have hsafe : ¬Tears w m line := by
      rw [htears]
      rintro ⟨rfl, hlast, -⟩
      have hplace := Memory.leadsTo_last (by omega) hlast
      exact hplace.past_iff.mpr hlast (places 1 (by decide))
    exact ⟨iff_of_true (.inl hwhole) hsafe, iff_of_true hwhole ⟨v, a, h, places⟩, fun ht => absurd ht hsafe⟩
  | nothing place =>
    have hnothing : StoresNothing m line := ⟨_, _, hrun, rfl, fun _ => rfl⟩
    have hsafe : ¬Tears w m line := by
      rw [htears]
      rintro ⟨-, hlast, -⟩
      exact place ⟨_, Memory.leadsTo_last (by omega) hlast⟩
    have hplaces : ¬∃ v a, TakesNumbers m w.command line v a ∧ ∀ k < w.count, m.memory.HasPlace (a + k) := by
      rw [h.exists_iff]
      intro places
      have hfirst := places 0 (by cases w <;> decide)
      exact place (by simpa using hfirst)
    exact ⟨iff_of_true (.inr hnothing) hsafe, iff_of_false (not_storesWhole hrun) hplaces,
      fun ht => absurd ht hsafe⟩
  | @half e i wide leads past =>
    subst wide
    have hlast := leads.past_iff.mp past
    obtain rfl := leads.unique (Memory.leadsTo_last (by omega) hlast)
    have hplaces : ¬∃ v a, TakesNumbers m Width.word.command line v a ∧
        ∀ k < Width.word.count, m.memory.HasPlace (a + k) := by
      rw [h.exists_iff]
      exact fun places => past (places 1 (by decide))
    have hlow : ((m.memory.get a.toNat).toNat : Int) = v % 256 ↔
        m.memory.get a.toNat = Memory.byteOf v := by
      have hbyte := Memory.toNat_byteOf v
      rw [← UInt8.toNat_inj]
      omega
    -- Nothing has changed if the low byte stood there before.
    have hnothing : StoresNothing m line ↔ m.memory.get a.toNat = Memory.byteOf v :=
      (storesNothing_iff hrun).trans Memory.sameBytes_set_iff
    refine ⟨?_, iff_of_false (not_storesWhole hrun) hplaces, fun _ => ?_⟩
    · rw [or_iff_right (not_storesWhole hrun), hnothing, htears, ← hlow]
      simp [hlast]
    · exact ⟨v, a, _, _, _, h, Width.spells_byte v, hrun, Memory.stores_byte leads _⟩

/-- A line with `POKE` or `POKEINT` stores the number it gives at the address it gives and nothing else, or it
fails and stores nothing, exactly unless it gives a word and the last address of the memory, and the low byte of
the word does not stand there yet. Then it fails and the low byte is stored all the same. -/
theorem stores_whole_or_nothing_iff (m : Machine) (w : Width) (line name : Text) (ts : List Token)
    (hsize : 65536 ≤ m.memory.size) (hparse : Token.parse line = .ok (.word name :: ts))
    (hname : Command.ofName? (upper name) = some w.command) : StoresDecided w m line := by
  by_cases h : ∃ v a, TakesNumbers m w.command line v a
  · obtain ⟨v, a, h⟩ := h
    exact storesDecided_of_takesNumbers hsize h
  · have hunread : ∀ v a, ¬TakesNumbers m w.command line v a := fun v a hva => h ⟨v, a, hva⟩
    obtain ⟨e, con, hrun⟩ := run_store_unread w.routine_command hparse hname hunread
    have hnothing : StoresNothing m line := ⟨e, _, hrun, rfl, fun _ => rfl⟩
    have hsafe : ¬Tears w m line := fun ⟨_, v, a, hva, _⟩ => hunread v a hva
    have hplaces : ¬∃ v a, TakesNumbers m w.command line v a ∧ ∀ k < w.count, m.memory.HasPlace (a + k) :=
      fun ⟨v, a, hva, _⟩ => hunread v a hva
    exact ⟨iff_of_true (.inr hnothing) hsafe, iff_of_false (not_storesWhole hrun) hplaces,
      fun ht => absurd ht hsafe⟩

/-- `POKEINT 70000 65534` stores 4464, which is 70000 modulo 65536, in the last two bytes. -/
theorem stores_whole_or_nothing_lastWord :
    65536 ≤ ({} : Machine).memory.size ∧
      Token.parse "POKEINT 70000 65534".toList = .ok [.word "POKEINT".toList, .number 70000, .number 65534] ∧
      Command.ofName? (upper "POKEINT".toList) = some Width.word.command ∧
      StoresWhole .word {} "POKEINT 70000 65534".toList := by
  have hsize : 65536 ≤ ({} : Machine).memory.size := by decide +kernel
  have hparse : Token.parse "POKEINT 70000 65534".toList =
      .ok [.word "POKEINT".toList, .number 70000, .number 65534] := by decide +kernel
  have hname : Command.ofName? (upper "POKEINT".toList) = some Width.word.command := by decide +kernel
  have hdecided := stores_whole_or_nothing_iff {} .word _ _ _ hsize hparse hname
  refine ⟨hsize, hparse, hname, hdecided.whole.mpr ?_⟩
  have htakes : TakesNumbers {} Width.word.command "POKEINT 70000 65534".toList 70000 65534 :=
    ⟨_, _, _, _, hparse, hname, rfl, rfl⟩
  have hplace (k : Nat) (hk : k < 2) : ({} : Machine).memory.LeadsTo (65534 + k) (65534 + k) := by
    have hbytes : ({} : Machine).memory.size = 65536 := rfl
    refine ⟨?_, by omega, by omega⟩
    unfold indexLimit
    omega
  exact ⟨70000, 65534, htakes, fun k hk => ⟨_, hplace k hk⟩⟩

/-- `POKEINT 257 65535` fails, and yet the last byte has changed. -/
theorem lastByte_torn :
    ((runLine "POKEINT 257 65535".toList).run {}).1 = .error .noSuchByte ∧
      ((runLine "POKEINT 257 65535".toList).run {}).2.memory.get 65535 = 1 ∧
      ¬(StoresWhole .word {} "POKEINT 257 65535".toList ∨ StoresNothing {} "POKEINT 257 65535".toList) := by
  have hfails : ((runLine "POKEINT 257 65535".toList).run {}).1 = .error .noSuchByte := by decide +kernel
  have hbyte : ((runLine "POKEINT 257 65535".toList).run {}).2.memory.get 65535 = 1 := by decide +kernel
  refine ⟨hfails, hbyte, ?_⟩
  rintro (⟨_, _, _, n, -, -, hrun, -⟩ | ⟨e, n, hrun, -, hsame⟩)
  · rw [hrun] at hfails
    cases hfails
  · rw [hrun] at hbyte
    have hzero : ({} : Machine).memory.get 65535 = 0 := by decide +kernel
    rw [hsame, hzero] at hbyte
    cases hbyte

end Machine
end BasicMachine
