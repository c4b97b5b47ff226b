import BasicMachine.Memory
import Mathlib.Data.List.TakeWhile

/-! Cells and blocks of memory. A write changes the cells it covers and no others, a block that fits is
stored in place, a word is two cells with the low byte first, and a text is read as the bytes of its block
in front of the terminator. -/
namespace BasicMachine

namespace Bank

variable {α : Type}

@[simp] theorem length_slice (b : Bank α) (i n : Nat) : (b.slice i n).length = n := by
  simp [slice]

theorem getElem?_slice (b : Bank α) (i n k : Nat) :
    (b.slice i n)[k]? = if k < n then some (b.get (i + k)) else none := by
  by_cases h : k < n
  · simp [slice, h]
  · simp [slice, h]

theorem slice_congr {b c : Bank α} {i n : Nat} (h : ∀ k, i ≤ k → k < i + n → b.get k = c.get k) :
    b.slice i n = c.slice i n := by
  apply List.ext_getElem?
  intro k
  rw [getElem?_slice, getElem?_slice]
  split
  · rw [h (i + k) (by omega) (by omega)]
  · rfl

theorem slice_add (b : Bank α) (i n k : Nat) :
    b.slice i (n + k) = b.slice i n ++ b.slice (i + n) k := by
  rw [slice, slice, slice, ← List.map_append]
  congr 1
  simp [List.range'_append_1]

theorem get_write_outside {b : Bank α} {i k : Nat} {items : List α}
    (h : k < i ∨ i + items.length ≤ k) : (b.write i items).get k = b.get k := by
  rw [get_write]
  split
  · rw [List.getElem?_eq_none (by omega)]
    rfl
  · rfl

theorem slice_write_outside {b : Bank α} {i j n : Nat} {items : List α}
    (h : j + n ≤ i ∨ i + items.length ≤ j) : (b.write i items).slice j n = b.slice j n :=
  slice_congr fun k _ _ => get_write_outside (by omega)

/-- What a block shows of items that were written from its start on, and of what was there before. -/
theorem slice_write_start (b : Bank α) (i n : Nat) (items : List α) :
    (b.write i items).slice i n = items.take n ++ (b.slice i n).drop items.length := by
  apply List.ext_getElem?
  intro k
  rw [getElem?_slice, get_write, List.getElem?_append, List.getElem?_take, List.length_take,
    List.getElem?_drop, getElem?_slice]
  simp only [Nat.le_add_right, ↓reduceIte, Nat.add_sub_cancel_left]
  by_cases hn : k < n
  · by_cases hk : k < items.length
    · have hfront : k < min n items.length := by omega
      simp [hn, hk, hfront]
    · have hmin : min n items.length = items.length := by omega
      have hadd : items.length + (k - items.length) = k := by omega
      simp [hn, hk, hmin, hadd]
  · have hlast : ¬items.length + (k - min n items.length) < n := by omega
    simp [hn, hlast]

theorem slice_write {b : Bank α} {i n : Nat} {items : List α} (h : items.length ≤ n) :
    (b.write i items).slice i n = items ++ (b.slice i n).drop items.length := by
  rw [slice_write_start, List.take_of_length_le h]

theorem slice_write_self (b : Bank α) (i : Nat) (items : List α) :
    (b.write i items).slice i items.length = items := by
  rw [slice_write (Nat.le_refl _), List.drop_of_length_le (Nat.le_of_eq (length_slice ..)), List.append_nil]

end Bank

theorem bound_natCast (size n : Nat) : bound size (n : Int) = min n size := by
  rw [bound, if_neg (by omega), Int.toNat_natCast]

theorem takeTo_natCast {α : Type} (n : Nat) (items : List α) : takeTo (n : Int) items = items.take n := by
  rw [takeTo, bound_natCast, List.take_eq_take_iff]
  omega

theorem dropTo_natCast {α : Type} (n : Nat) (items : List α) : dropTo (n : Int) items = items.drop n := by
  rw [dropTo, bound_natCast, List.drop_eq_drop_iff]
  omega

namespace Memory

theorem run_writeByte_ok {m : Memory} {a : Int} {i : Nat} (h : m.address a = .ok i) (v : Int) :
    (writeByte a v).run m = (.ok (), m.set i (byteOf v)) := by
  simp [writeByte, Run.run_bind, h]

theorem run_writeByte_error {m : Memory} {a : Int} {e : Fault} (h : m.address a = .error e) (v : Int) :
    (writeByte a v).run m = (.error e, m) := by
  simp [writeByte, Run.run_bind, h]

section Inside

variable {m : Memory} {a : Nat} (hlimit : (a : Int) + 1 < indexLimit)
include hlimit

theorem address_natCast (h : a < m.size) : m.address a = .ok a :=
  place_inside (by omega) (by omega) (by omega)

theorem readWord_natCast (h : a + 1 < m.size) :
    m.readWord a = .ok ((m.get a).toNat + 256 * (m.get (a + 1)).toNat) := by
  have hlow : m.address a = .ok a := address_natCast hlimit (by omega)
  have hhigh : m.address (a + 1) = .ok (a + 1) := place_inside (by omega) (by omega) hlimit
  rw [readWord, readByte, readByte, hlow, hhigh]
  rfl

theorem run_writeByte_natCast (h : a < m.size) (v : Int) :
    (writeByte a v).run m = (.ok (), m.write a [byteOf v]) :=
  run_writeByte_ok (address_natCast hlimit h) v

theorem run_writeWord_natCast (h : a + 1 < m.size) (v : Int) :
    (writeWord a v).run m = (.ok (), m.write a [byteOf v, byteOf (v / 256)]) := by
  have hlow : m.address a = .ok a := address_natCast hlimit (by omega)
  have hhigh : address (m.set a (byteOf v)) (a + 1) = .ok (a + 1) :=
    place_inside (by omega) (by rw [Bank.size_set]; omega) hlimit
  rw [writeWord, Run.run_bind_ok (run_writeByte_ok hlow v), run_writeByte_ok hhigh]
  rfl

end Inside

theorem between_natCast (m : Memory) (a n : Nat) :
    m.between a (a + n) = m.slice (min a m.size) (min (a + n) m.size - min a m.size) := by
  have h : (a : Int) + n = ((a + n : Nat) : Int) := by simp
  rw [between, h, bound_natCast, bound_natCast]

theorem between_inside {m : Memory} {a n : Nat} (h : a + n ≤ m.size) :
    m.between a (a + n) = m.slice a n := by
  rw [between_natCast, Nat.min_eq_left h, Nat.min_eq_left (by omega), Nat.add_sub_cancel_left]

theorem length_between_le (m : Memory) (a n : Nat) : (m.between a (a + n)).length ≤ n := by
  rw [between_natCast, Bank.length_slice]
  omega

theorem writeData_inside {m : Memory} {a : Nat} {bytes : List UInt8} (h : a + bytes.length ≤ m.size) :
    m.writeData a bytes = m.write a bytes := by
  have hsum : (a : Int) + bytes.length = ((a + bytes.length : Nat) : Int) := by simp
  rw [writeData, hsum, bound_natCast, bound_natCast, Nat.min_eq_left h, Nat.min_eq_left (by omega)]
  simp [Bank.splice]

theorem writeString_inside {m : Memory} {a limit : Nat} {t : Text} (h : a + limit ≤ m.size) :
    m.writeString a t limit = m.write a ((CodePage.encode t).take limit) := by
  rw [writeString, takeTo_natCast]
  apply writeData_inside
  have hlength := List.length_take_le limit (CodePage.encode t)
  omega

theorem readString_natCast (m : Memory) (a limit t : Nat) (ht : t < 256) :
    m.readString a limit t =
      .ok (CodePage.decode ((m.between a (a + limit)).takeWhile (· != byteOf t))) := by
  rw [readString, if_neg (by omega)]
  dsimp only
  split
  · rfl
  · next hc =>
    have hall : ∀ b ∈ m.between a (a + limit), (b != byteOf t) = true := by
      intro b hb
      rw [bne_iff_ne]
      rintro rfl
      exact hc (List.contains_iff_mem.mpr hb)
    rw [takeTo_natCast, List.take_of_length_le (length_between_le m a limit),
      List.takeWhile_eq_self_iff.mpr hall]

end Memory
end BasicMachine
