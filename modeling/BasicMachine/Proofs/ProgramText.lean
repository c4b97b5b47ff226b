import BasicMachine.Proofs.MemoryBlock

/-! A program in memory: lines that end in a newline each, and zeros behind them up to the end of memory.
Reading at the start of a line gives the line and the start of the next one, and reading behind the last
line finds no newline. -/
namespace BasicMachine

def programOf (lines : List (List UInt8)) : List UInt8 :=
  lines.flatMap fun line => line ++ [Memory.newline]

/-- The addresses of the lines of a program that begins at `a`, and of its end. -/
def lineStarts (a : Nat) : List (List UInt8) → List Int
  | [] => [(a : Int)]
  | line :: rest => (a : Int) :: lineStarts (a + line.length + 1) rest

/-- A line that is read whole. -/
structure FitsLine (line : List UInt8) : Prop where
  noNewline : Memory.newline ∉ line
  short : line.length ≤ 255

instance (line : List UInt8) : Decidable (FitsLine line) :=
  decidable_of_iff (Memory.newline ∉ line ∧ line.length ≤ 255)
    ⟨fun h => ⟨h.1, h.2⟩, fun h => ⟨h.1, h.2⟩⟩

namespace Memory

/-- From `a` on the memory of 64 KiB holds the bytes, and nothing behind them. -/
structure Ends (m : Memory) (a : Nat) (bytes : List UInt8) : Prop where
  size : m.size = 65536
  fits : a + bytes.length ≤ 65536
  byte : ∀ k, a + k < 65536 → m.get (a + k) = bytes[k]?.getD 0

namespace Ends

variable {m : Memory} {a : Nat} {bytes : List UInt8}

theorem congr {n : Memory} (h : Ends m a bytes) (hsize : n.size = 65536)
    (hget : ∀ k, a ≤ k → n.get k = m.get k) : Ends n a bytes where
  size := hsize
  fits := h.fits
  byte k hk := (hget (a + k) (by omega)).trans (h.byte k hk)

theorem drop {front : List UInt8} (h : Ends m a (front ++ bytes)) : Ends m (a + front.length) bytes where
  size := h.size
  fits := by have := h.fits; rw [List.length_append] at this; omega
  byte k hk := by
    rw [Nat.add_assoc, h.byte _ (by omega), List.getElem?_append_right (by omega),
      Nat.add_sub_cancel_left]

theorem slice (h : Ends m a bytes) {n : Nat} (hn : n ≤ bytes.length) :
    m.slice a n = bytes.take n := by
  have hfits := h.fits
  apply List.ext_getElem?
  intro k
  rw [Bank.getElem?_slice, List.getElem?_take]
  split
  · next hk => rw [h.byte k (by omega), List.getElem?_eq_getElem (by omega), Option.getD_some]
  · rfl

end Ends

theorem search_eq_some {p : Nat → Bool} {i k n : Nat} (hk : k < n) (hp : p (i + k) = true)
    (hfirst : ∀ j < k, p (i + j) = false) : search p i n = some (i + k) := by
  induction n generalizing i k with
  | zero => omega
  | succ n ih =>
    cases k with
    | zero => exact if_pos hp
    | succ k =>
      have hi : p i = false := hfirst 0 (by omega)
      have hnext (j : Nat) : i + 1 + j = i + (j + 1) := by omega
      rw [search, hi, if_neg (by simp), ← hnext k]
      refine ih (by omega) (by rwa [hnext]) fun j hj => ?_
      rw [hnext]
      exact hfirst (j + 1) (by omega)

theorem search_eq_none {p : Nat → Bool} {i n : Nat} (h : ∀ j < n, p (i + j) = false) :
    search p i n = none := by
  induction n generalizing i with
  | zero => rfl
  | succ n ih =>
    have hi : p i = false := h 0 (by omega)
    rw [search, hi, if_neg (by simp)]
    refine ih fun j hj => ?_
    rw [Nat.add_assoc, Nat.add_comm 1 j]
    exact h (j + 1) (by omega)

theorem nextLine_natCast (m : Memory) (a : Nat) :
    m.nextLine a = (search (fun i => m.get i == newline) a (m.size - a)).elim
      (.error .noNewline) fun i => .ok (i + 1) := by
  have hstart : (if (a : Int) < 0 then bound m.size a else (a : Int).toNat) = a := by
    rw [if_neg (by omega), Int.toNat_natCast]
  simp only [nextLine, hstart]
  cases search (fun i => m.get i == newline) a (m.size - a) <;> rfl

/-- From `a` on the memory holds the bytes of a line, and then a newline. -/
structure HasLine (m : Memory) (a : Nat) (line : List UInt8) : Prop where
  inside : a + line.length < m.size
  bytes : m.slice a line.length = line
  ends : m.get (a + line.length) = newline

namespace HasLine

variable {m : Memory} {a : Nat} {line : List UInt8} (h : HasLine m a line)
include h

theorem nextLine (hline : newline ∉ line) : m.nextLine a = .ok (a + line.length + 1) := by
  have hinside := h.inside
  have hsearch : search (fun i => m.get i == newline) a (m.size - a) = some (a + line.length) := by
    refine search_eq_some (by omega) (beq_iff_eq.mpr h.ends) fun j hj => ?_
    have hbyte := Bank.getElem?_slice m a line.length j
    rw [h.bytes, if_pos hj] at hbyte
    rw [beq_eq_false_iff_ne]
    intro heq
    exact hline (heq ▸ List.mem_of_getElem? hbyte)
  rw [nextLine_natCast, hsearch, Option.elim_some]

/-- A line is read whole, even if its newline lies behind the part that is looked at. -/
theorem readLine (hline : FitsLine line) : m.readLine a = .ok (CodePage.decode line) := by
  have hinside := h.inside
  have hshort := hline.short
  have hclean : ∀ b ∈ line, (b != newline) = true := by
    intro b hb
    rw [bne_iff_ne]
    rintro rfl
    exact hline.noNewline hb
  obtain ⟨n, hn⟩ : ∃ n, min (a + 255) m.size - min a m.size = line.length + n :=
    ⟨min (a + 255) m.size - min a m.size - line.length, by omega⟩
  have hwindow : m.between a (a + (255 : Nat)) = line ++ m.slice (a + line.length) n := by
    rw [between_natCast, hn, Nat.min_eq_left (by omega), Bank.slice_add, h.bytes]
  have hbehind : (m.slice (a + line.length) n).takeWhile (· != newline) = [] := by
    cases n with
    | zero => rfl
    | succ n => simp [Bank.slice, List.range'_succ, h.ends]
  have hread := m.readString_natCast a 255 10 (by decide)
  rw [hwindow, show byteOf ((10 : Nat) : Int) = newline from rfl,
    List.takeWhile_append_of_pos hclean, hbehind, List.append_nil] at hread
  exact hread

end HasLine

namespace Ends

variable {m : Memory} {a : Nat} {line rest : List UInt8}

theorem hasLine (h : Ends m a (line ++ newline :: rest)) : HasLine m a line := by
  have hfits := h.fits
  rw [List.length_append, List.length_cons] at hfits
  constructor
  case inside =>
    rw [h.size]
    omega
  case bytes => rw [h.slice (by simp), List.take_left]
  case ends =>
    rw [h.byte _ (by omega), List.getElem?_append_right (Nat.le_refl _), Nat.sub_self]
    rfl

theorem nextLine (h : Ends m a (line ++ newline :: rest)) (hline : FitsLine line) :
    m.nextLine a = .ok (a + line.length + 1) := h.hasLine.nextLine hline.noNewline

theorem readLine (h : Ends m a (line ++ newline :: rest)) (hline : FitsLine line) :
    m.readLine a = .ok (CodePage.decode line) := h.hasLine.readLine hline

theorem nextLine_nil (h : Ends m a []) : m.nextLine a = .error .noNewline := by
  have hsearch : search (fun i => m.get i == newline) a (m.size - a) = none := by
    refine search_eq_none fun j hj => ?_
    rw [h.byte j (by rw [h.size] at hj; omega)]
    rfl
  rw [nextLine_natCast, hsearch, Option.elim_none]

end Ends

theorem exists_readLine (m : Memory) (a : Nat) : ∃ t, m.readLine a = .ok t :=
  ⟨_, m.readString_natCast a 255 10 (by decide)⟩

end Memory
end BasicMachine
