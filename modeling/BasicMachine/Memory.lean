import BasicMachine.Bank
import BasicMachine.Run
import BasicMachine.Text.CodePage

/-! The memory of the machine: 64 KiB of bytes at the start. A negative address counts from the end.
A range of addresses is cut to what is there, and storing a block in place of a shorter range makes
the memory longer. -/
namespace BasicMachine

abbrev Memory := Bank UInt8

/-- Indexes have 64 bits. -/
def indexLimit : Int := 0x8000000000000000

/-- The place of an index in a sequence of `size` items. A negative index counts from the end. -/
def place (outside : Fault) (size : Nat) (i : Int) : Except Fault Nat :=
  if i < -indexLimit ∨ indexLimit ≤ i then .error .hugeIndex
  else
    let j := if i < 0 then i + size else i
    if 0 ≤ j ∧ j < size then .ok j.toNat else .error outside

theorem place_inside {outside : Fault} {size : Nat} {k : Int} (h0 : 0 ≤ k) (hsize : k < size)
    (hk : k < indexLimit) : place outside size k = .ok k.toNat := by
  have hsmall : ¬(k < -indexLimit ∨ indexLimit ≤ k) := by
    unfold indexLimit at hk ⊢
    omega
  have hneg : ¬k < 0 := by omega
  simp only [place, hsmall, hneg, h0, hsize, if_false, and_self, if_true]

/-- The end of a range in a sequence of `size` items: a negative one counts from the end, and what lies
outside is cut off. -/
def bound (size : Nat) (i : Int) : Nat :=
  if i < 0 then (i + size).toNat else min i.toNat size

theorem bound_le (size : Nat) (i : Int) : bound size i ≤ size := by
  unfold bound; split <;> omega

/-- The items in front of the bound `i`. -/
def takeTo {α : Type} (i : Int) (items : List α) : List α := items.take (bound items.length i)

/-- The items behind the bound `i`. -/
def dropTo {α : Type} (i : Int) (items : List α) : List α := items.drop (bound items.length i)

namespace Memory

def fresh : Memory := Bank.replicate 65536 0

def address (m : Memory) (a : Int) : Except Fault Nat := place .noSuchByte m.size a

def byteOf (v : Int) : UInt8 := (v % 256).toNat.toUInt8

def readByte (m : Memory) (a : Int) : Except Fault Nat := do
  return (m.get (← m.address a)).toNat

/-- The low byte stands first. -/
def readWord (m : Memory) (a : Int) : Except Fault Nat := do
  let low ← m.readByte a
  let high ← m.readByte (a + 1)
  return low + 256 * high

def writeByte (a v : Int) : Run Memory Unit := do
  let m ← get
  let i ← Run.ofExcept (m.address a)
  set (m.set i (byteOf v))

def writeWord (a v : Int) : Run Memory Unit := do
  writeByte a v
  writeByte (a + 1) (v / 256)

/-- The bytes from address `a` up to address `b`. -/
def between (m : Memory) (a b : Int) : List UInt8 :=
  m.slice (bound m.size a) (bound m.size b - bound m.size a)

def readData (m : Memory) (a n : Int) : List UInt8 := m.between a (a + n)

def writeData (m : Memory) (a : Int) (bytes : List UInt8) : Memory :=
  let start := bound m.size a
  m.splice start (max start (bound m.size (a + bytes.length))) bytes

/-- The text from `a` on, at most `limit` characters, up to the first byte `terminator`. -/
def readString (m : Memory) (a limit terminator : Int) : Except Fault Text :=
  if terminator < 0 ∨ 256 ≤ terminator then .error .byteRange
  else
    let bytes := m.between a (a + limit)
    let stop := byteOf terminator
    if bytes.contains stop then .ok (CodePage.decode (bytes.takeWhile (· != stop)))
    else .ok (CodePage.decode (takeTo limit bytes))

/-- The first `limit` characters of the text, without a terminator. -/
def writeString (m : Memory) (a : Int) (t : Text) (limit : Int) : Memory :=
  m.writeData a (takeTo limit (CodePage.encode t))

def newline : UInt8 := 10

def readLine (m : Memory) (a : Int) : Except Fault Text := m.readString a 255 10

/-- The first of `n` addresses from `i` on with property `p`. -/
def search (p : Nat → Bool) : Nat → Nat → Option Nat
  | _, 0 => none
  | i, n + 1 => if p i then some i else search p (i + 1) n

/-- The address behind the first newline at or behind `a`. -/
def nextLine (m : Memory) (a : Int) : Except Fault Nat :=
  let start := if a < 0 then bound m.size a else a.toNat
  match search (fun i => m.get i == newline) start (m.size - start) with
  | some i => .ok (i + 1)
  | none => .error .noNewline

def holdsAt (m : Memory) : Nat → List UInt8 → Bool
  | _, [] => true
  | i, b :: rest => m.get i == b && m.holdsAt (i + 1) rest

/-- The first address of the text that lies whole between `start` and `limit`. -/
def findString (m : Memory) (t : Text) (start limit : Int) : Except Fault Nat :=
  let bytes := CodePage.encode t
  let first := if start < 0 then bound m.size start else start.toNat
  let last := bound m.size limit
  match search (fun i => m.holdsAt i bytes) first (last + 1 - bytes.length - first) with
  | some i => .ok i
  | none => .error (.stringNotFound t)

/-- The lines that show the bytes of `n` addresses from `a` on, up to the first address outside. -/
def dump (m : Memory) (a : Int) : Nat → List Text × Except Fault Unit
  | 0 => ([], .ok ())
  | n + 1 =>
    match m.readByte a with
    | .error e => ([], .error e)
    | .ok b =>
      let (lines, r) := m.dump (a + 1) n
      ((Text.hex 4 a ++ [':', ' '] ++ Text.hex 2 b) :: lines, r)

end Memory
end BasicMachine
