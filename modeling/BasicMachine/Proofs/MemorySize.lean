import BasicMachine.Proofs.MemoryBlock

/-! How large the memory is. Storing a block makes the memory longer unless the block lies in it. -/
namespace BasicMachine

section Along

variable {σ ι : Type}

/-- Every item has the property in the state that the items in front of it lead to. -/
def Along (step : σ → ι → σ) (P : σ → ι → Prop) : σ → List ι → Prop
  | _, [] => True
  | s, i :: items => P s i ∧ Along step P (step s i) items

theorem along_const_iff (step : σ → ι → σ) {P : ι → Prop} (s : σ) (items : List ι) :
    Along step (fun _ => P) s items ↔ ∀ i ∈ items, P i := by
  induction items generalizing s with
  | nil => simp [Along]
  | cons i items ih => rw [Along, ih, List.forall_mem_cons]

/-- If one item keeps an invariant just when it has a property, then the invariant holds on the whole way
just when all items have the property. -/
theorem forall_take_iff_along {step : σ → ι → σ} {pre good : σ → ι → Prop} (inv : σ → Prop)
    (hstep : ∀ s i, pre s i → inv s → (inv (step s i) ↔ good s i)) {s : σ} {items : List ι}
    (hs : inv s) (hpre : Along step pre s items) :
    (∀ k, inv ((items.take k).foldl step s)) ↔ Along step good s items := by
  induction items generalizing s with
  | nil => simp [Along, hs]
  | cons i items ih =>
    obtain ⟨hfirst, hrest⟩ := hpre
    constructor
    · intro hinv
      have hnext : inv (step s i) := hinv 1
      exact ⟨(hstep s i hfirst hs).mp hnext, (ih hnext hrest).mp fun k => hinv (k + 1)⟩
    · rintro ⟨hgood, hall⟩ k
      have hnext : inv (step s i) := (hstep s i hfirst hs).mpr hgood
      cases k with
      | zero => exact hs
      | succ k => exact (ih hnext hrest).mpr hall k

/-- If a property holds behind an item just when it holds in front of it and the item is good, then it holds
at the end of the way just when it holds at its start and all items are good. -/
theorem foldl_iff_along {step : σ → ι → σ} {inv : σ → Prop} (holds : σ → Prop) {good : σ → ι → Prop}
    (hinv : ∀ s i, inv s → inv (step s i))
    (hstep : ∀ s i, inv s → (holds (step s i) ↔ holds s ∧ good s i)) {s : σ} (hs : inv s)
    (items : List ι) : holds (items.foldl step s) ↔ holds s ∧ Along step good s items := by
  induction items generalizing s with
  | nil => simp [Along]
  | cons i items ih => rw [List.foldl_cons, ih (hinv s i hs), hstep s i hs, Along, and_assoc]

end Along

namespace Bank

variable {α : Type}

@[simp] theorem size_ofList (blank : α) (items : List α) : (ofList blank items).size = items.length := rfl

theorem size_splice (b : Bank α) (start : Nat) {stop : Nat} (hstop : stop ≤ b.size) (items : List α) :
    (b.splice start stop items).size = start + items.length + (b.size - stop) := by
  unfold splice
  split
  · rw [size_write]
    omega
  · split
    · show start + items.length = _
      omega
    · rw [size_ofList, List.length_append, List.length_append, length_slice, length_slice]

end Bank

/-- The block of `n` items at `a` lies in a sequence of `size` items: it is empty, or it does not pass the
end, or it counts from the end and does not reach it. -/
def LiesIn (size : Nat) (a : Int) (n : Nat) : Prop :=
  n = 0 ∨ (0 ≤ a ∧ a + n ≤ size) ∨ (-size ≤ a ∧ a + n < 0)

instance (size : Nat) (a : Int) (n : Nat) : Decidable (LiesIn size a n) :=
  inferInstanceAs (Decidable (_ ∨ _ ∨ _))

namespace Memory

theorem size_writeData (m : Memory) (a : Int) (bytes : List UInt8) :
    (m.writeData a bytes).size = bound m.size a + bytes.length +
      (m.size - max (bound m.size a) (bound m.size (a + bytes.length))) := by
  have hstart := bound_le m.size a
  have hstop := bound_le m.size (a + bytes.length)
  exact Bank.size_splice m _ (by omega) bytes

theorem size_le_writeData (m : Memory) (a : Int) (bytes : List UInt8) :
    m.size ≤ (m.writeData a bytes).size := by
  rw [size_writeData]
  unfold bound
  split <;> split <;> omega

theorem size_writeData_eq_iff (m : Memory) (a : Int) (bytes : List UInt8) :
    (m.writeData a bytes).size = m.size ↔ LiesIn m.size a bytes.length := by
  rw [size_writeData]
  unfold bound LiesIn
  split <;> split <;> omega

/-- A block that begins inside the memory is written over it and past its end. -/
theorem writeData_natCast {m : Memory} {a : Nat} (h : a ≤ m.size) (bytes : List UInt8) :
    m.writeData a bytes = { m.write a bytes with size := max m.size (a + bytes.length) } := by
  by_cases hfit : a + bytes.length ≤ m.size
  · rw [writeData_inside hfit, Nat.max_eq_left hfit, ← Bank.size_write m a bytes]
  · have hsum : (a : Int) + bytes.length = ((a + bytes.length : Nat) : Int) := by simp
    have hstop : max a m.size = m.size := by omega
    rw [writeData, hsum, bound_natCast, bound_natCast, Nat.min_eq_left h, Nat.min_eq_right (by omega),
      hstop, Nat.max_eq_right (by omega)]
    rw [Bank.splice, if_neg (by omega), if_pos rfl]

theorem size_writeByte (m : Memory) (a v : Int) : ((writeByte a v).run m).2.size = m.size := by
  cases h : m.address a with
  | error e => rw [run_writeByte_error h]
  | ok i => rw [run_writeByte_ok h, Bank.size_set]

theorem size_writeWord (m : Memory) (a v : Int) : ((writeWord a v).run m).2.size = m.size := by
  rcases hrun : (writeByte a v).run m with ⟨r, m'⟩
  have hfirst := size_writeByte m a v
  rw [hrun] at hfirst
  cases r with
  | error e => rwa [writeWord, Run.run_bind_error hrun]
  | ok u => rw [writeWord, Run.run_bind_ok hrun, size_writeByte, hfirst]

theorem get_writeByte {m : Memory} {a k : Nat} (hlimit : (a : Int) + 1 < indexLimit) (v : Int)
    (hk : k < m.size) :
    ((writeByte a v).run m).2.get k = if k = a then byteOf v else m.get k := by
  by_cases ha : a < m.size
  · rw [run_writeByte_ok (address_natCast hlimit ha), Bank.get_set]
  · have hfail : m.address a = .error .noSuchByte := by
      have hsmall : ¬((a : Int) < -indexLimit ∨ indexLimit ≤ (a : Int)) := by
        unfold indexLimit at hlimit ⊢
        omega
      have hneg : ¬(a : Int) < 0 := by omega
      have hout : ¬(0 ≤ (a : Int) ∧ (a : Int) < m.size) := by omega
      simp only [address, place, hsmall, hneg, hout, if_false]
    rw [run_writeByte_error hfail, if_neg (by omega)]

theorem get_writeWord {m : Memory} {a k : Nat} (hlimit : (a : Int) + 2 < indexLimit) (v : Int)
    (ha : a < m.size) (hk : k < m.size) :
    ((writeWord a v).run m).2.get k =
      if k = a + 1 then byteOf (v / 256) else if k = a then byteOf v else m.get k := by
  have hlow : m.address a = .ok a := address_natCast (by omega) ha
  have hhigh := get_writeByte (m := m.set a (byteOf v)) (a := a + 1) (k := k) (by omega) (v / 256)
    (by rwa [Bank.size_set])
  rw [Int.natCast_add, Int.natCast_one, Bank.get_set] at hhigh
  rw [writeWord, Run.run_bind_ok (run_writeByte_ok hlow v), hhigh]

end Memory

/-- What the memory is asked to do, at the addresses of 64 KiB. -/
inductive Access where
  | readByte (a : Fin 65536)
  | readWord (a : Fin 65536)
  | readString (a : Fin 65536) (limit terminator : Int)
  | readLine (a : Fin 65536)
  | readData (a : Fin 65536) (n : Int)
  | nextLine (a : Fin 65536)
  | findString (t : Text) (start : Fin 65536) (limit : Int)
  | writeByte (a : Fin 65536) (v : Int)
  | writeWord (a : Fin 65536) (v : Int)
  | writeString (a : Fin 65536) (t : Text) (limit : Int)
  | writeData (a : Fin 65536) (bytes : List UInt8)

namespace Access

def consult {α : Type} (f : Memory → Except Fault α) : Run Memory Unit := do
  let _ ← Run.ofExcept (f (← get))

def perform : Access → Run Memory Unit
  | readByte a => consult fun m => m.readByte (a : Nat)
  | readWord a => consult fun m => m.readWord (a : Nat)
  | readString a limit terminator => consult fun m => m.readString (a : Nat) limit terminator
  | readLine a => consult fun m => m.readLine (a : Nat)
  | readData a n => consult fun m => .ok (m.readData (a : Nat) n)
  | nextLine a => consult fun m => m.nextLine (a : Nat)
  | findString t start limit => consult fun m => m.findString t (start : Nat) limit
  | writeByte a v => Memory.writeByte (a : Nat) v
  | writeWord a v => Memory.writeWord (a : Nat) v
  | writeString a t limit => modify fun m => m.writeString (a : Nat) t limit
  | writeData a bytes => modify fun m => m.writeData (a : Nat) bytes

/-- The block that is stored, if it is one. -/
def block : Access → Option (Fin 65536 × List UInt8)
  | writeString a t limit => some (a, takeTo limit (CodePage.encode t))
  | writeData a bytes => some (a, bytes)
  | _ => none

/-- No block passes the end of 64 KiB. -/
def Fits (x : Access) : Prop := ∀ b ∈ x.block, b.1 + b.2.length ≤ 65536

instance (x : Access) : Decidable x.Fits := inferInstanceAs (Decidable (∀ b ∈ x.block, _))

/-- The same without what passes the end of 64 KiB. -/
def cut (x : Access) : Access :=
  match x.block with
  | some (a, bytes) => writeData a (bytes.take (65536 - a))
  | none => x

/-- The memory after the operation, whether it succeeded or failed. -/
def after (m : Memory) (x : Access) : Memory := (x.perform.run m).2

theorem after_of_block {x : Access} {a : Fin 65536} {bytes : List UInt8}
    (h : x.block = some (a, bytes)) (m : Memory) : after m x = m.writeData (a : Nat) bytes := by
  cases x <;> cases h <;> rfl

theorem consult_snd {α : Type} (f : Memory → Except Fault α) (m : Memory) :
    ((consult f).run m).2 = m := by
  simp only [consult, Run.run_bind, Run.run_get, Run.run_ofExcept]
  cases f m <;> rfl

theorem size_after_of_none {x : Access} (h : x.block = none) (m : Memory) :
    (after m x).size = m.size := by
  cases x with
  | writeByte a v => exact Memory.size_writeByte m _ v
  | writeWord a v => exact Memory.size_writeWord m _ v
  | writeString a t limit => cases h
  | writeData a bytes => cases h
  | _ => exact congrArg Bank.size (consult_snd _ m)

theorem size_after_eq_iff {m : Memory} (h : m.size = 65536) (x : Access) :
    (after m x).size = 65536 ↔ x.Fits := by
  cases hblock : x.block with
  | none => simp [size_after_of_none hblock, h, Fits, hblock]
  | some b =>
    obtain ⟨a, bytes⟩ := b
    have ha : (a : Nat) ≤ m.size := by omega
    rw [after_of_block hblock, Memory.writeData_natCast ha, h]
    simp only [Fits, hblock, Option.mem_some_iff, forall_eq']
    omega

/-- `n` is the 64 KiB memory that holds what stands in the first 64 KiB of `m`. -/
structure Shows (m n : Memory) : Prop where
  reaches : 65536 ≤ m.size
  size : n.size = 65536
  bytes : ∀ k < 65536, m.get k = n.get k

/-- What the memory does to its first 64 KiB, it does when the rest is cut off too. -/
theorem Shows.after {m n : Memory} (h : Shows m n) (x : Access) :
    Shows (Access.after m x) (Access.after n x.cut) := by
  obtain ⟨hreaches, hsize, hbytes⟩ := h
  cases hblock : x.block with
  | some b =>
    obtain ⟨a, bytes⟩ := b
    have hcut : x.cut = writeData a (bytes.take (65536 - a)) := by simp only [cut, hblock]
    have hfit : (a : Nat) + (bytes.take (65536 - a)).length ≤ n.size := by
      rw [hsize, List.length_take]
      omega
    have hm : Access.after m x = { m.write a bytes with size := max m.size (a + bytes.length) } := by
      rw [after_of_block hblock, Memory.writeData_natCast (by omega)]
    have hn : Access.after n x.cut = n.write a (bytes.take (65536 - a)) := by
      rw [hcut, after_of_block rfl, Memory.writeData_inside hfit]
    refine ⟨?_, by rw [hn, Bank.size_write, hsize], fun k hk => ?_⟩
    · rw [hm]
      exact Nat.le_trans hreaches (Nat.le_max_left _ _)
    · rw [hm, hn]
      show (m.write a bytes).get k = _
      rw [Bank.get_write, Bank.get_write, hbytes k hk]
      split
      · rw [List.getElem?_take_of_lt (by omega)]
      · rfl
  | none =>
    -- Without a block nothing is cut off, and the same bytes go to the same places in both.
    have hcut : x.cut = x := by simp only [cut, hblock]
    rw [hcut]
    refine ⟨by rwa [size_after_of_none hblock], by rw [size_after_of_none hblock, hsize], ?_⟩
    intro k hk
    cases x with
    | writeByte a v =>
      have hlimit : ((a : Nat) : Int) + 1 < indexLimit := by unfold indexLimit; omega
      show ((Memory.writeByte (a : Nat) v).run m).2.get k = ((Memory.writeByte (a : Nat) v).run n).2.get k
      rw [Memory.get_writeByte hlimit v (by omega), Memory.get_writeByte hlimit v (by omega), hbytes k hk]
    | writeWord a v =>
      have hlimit : ((a : Nat) : Int) + 2 < indexLimit := by unfold indexLimit; omega
      show ((Memory.writeWord (a : Nat) v).run m).2.get k = ((Memory.writeWord (a : Nat) v).run n).2.get k
      rw [Memory.get_writeWord hlimit v (by omega) (by omega),
        Memory.get_writeWord hlimit v (by omega) (by omega), hbytes k hk]
    | writeString a t limit => cases hblock
    | writeData a bytes => cases hblock
    | _ => simpa only [Access.after, perform, consult_snd] using hbytes k hk

def afterAll (m : Memory) (xs : List Access) : Memory := xs.foldl after m

theorem Shows.afterAll {m n : Memory} (h : Shows m n) (xs : List Access) :
    Shows (Access.afterAll m xs) (Access.afterAll n (xs.map cut)) := by
  induction xs generalizing m n with
  | nil => exact h
  | cons x xs ih => exact ih (h.after x)

theorem sizes_afterAll_iff {m : Memory} (h : m.size = 65536) (xs : List Access) :
    (∀ k, (afterAll m (xs.take k)).size = 65536) ↔ ∀ x ∈ xs, x.Fits := by
  have hpre : Along after (fun _ _ => True) m xs := (along_const_iff after m xs).mpr fun _ _ => trivial
  rw [← along_const_iff after m xs]
  exact forall_take_iff_along (fun n => n.size = 65536) (fun n x _ hn => size_after_eq_iff hn x) h hpre

end Access
end BasicMachine
