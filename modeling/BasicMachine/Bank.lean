/-! A bank is a finite array of cells that starts out blank. Only the cells that were written take up
room: they sit in a binary tree, where the root has the number `0` and cell `n + 1` is cell `n / 2` of
the left branch for even `n` and of the right branch for odd `n`. -/
namespace BasicMachine

inductive CellTree (α : Type) where
  | leaf
  | node (left : CellTree α) (value : Option α) (right : CellTree α)

namespace CellTree

variable {α β : Type}

def get? : CellTree α → Nat → Option α
  | leaf, _ => none
  | node _ v _, 0 => v
  | node l _ r, n + 1 => if n % 2 = 0 then l.get? (n / 2) else r.get? (n / 2)

/-- Puts `a` into cell `n`, if the path to it is shorter than `depth`. -/
def insertWithin : Nat → CellTree α → Nat → α → CellTree α
  | 0, t, _, _ => t
  | _ + 1, leaf, 0, a => node leaf (some a) leaf
  | depth + 1, leaf, n + 1, a =>
    if n % 2 = 0 then node (insertWithin depth leaf (n / 2) a) none leaf
    else node leaf none (insertWithin depth leaf (n / 2) a)
  | _ + 1, node l _ r, 0, a => node l (some a) r
  | depth + 1, node l v r, n + 1, a =>
    if n % 2 = 0 then node (insertWithin depth l (n / 2) a) v r
    else node l v (insertWithin depth r (n / 2) a)

def insert (t : CellTree α) (n : Nat) (a : α) : CellTree α :=
  insertWithin ((n + 1).log2 + 1) t n a

def map (f : α → β) : CellTree α → CellTree β
  | leaf => leaf
  | node l v r => node (l.map f) (v.map f) (r.map f)

@[simp] theorem get?_leaf (n : Nat) : (leaf : CellTree α).get? n = none := by
  cases n <;> rfl

theorem get?_insertWithin (depth : Nat) (t : CellTree α) (n : Nat) (a : α)
    (h : (n + 1).log2 < depth) (k : Nat) :
    (insertWithin depth t n a).get? k = if k = n then some a else t.get? k := by
  induction depth generalizing t n k with
  | zero => simp at h
  | succ depth ih =>
    cases n with
    | zero => cases t <;> cases k <;> simp [insertWithin, get?]
    | succ n =>
      have hn : (n / 2 + 1).log2 < depth := by
        rw [Nat.log2_def, if_pos (by omega), Nat.add_lt_add_iff_right] at h
        rwa [show n / 2 + 1 = (n + 1 + 1) / 2 by omega]
      have same (k : Nat) (h : k % 2 = n % 2) : k / 2 = n / 2 ↔ k = n := by omega
      cases k with
      | zero => cases t <;> simp only [insertWithin] <;> split <;> simp [get?]
      | succ k =>
        have at_half (t : CellTree α) := ih t _ hn (k / 2)
        cases t <;> simp only [insertWithin] <;> split <;> simp only [get?, at_half] <;>
          grind

@[simp] theorem get?_insert (t : CellTree α) (n : Nat) (a : α) (k : Nat) :
    (t.insert n a).get? k = if k = n then some a else t.get? k :=
  get?_insertWithin _ t n a (Nat.lt_succ_self _) k

@[simp] theorem get?_map (f : α → β) (t : CellTree α) (n : Nat) :
    (t.map f).get? n = (t.get? n).map f := by
  induction t generalizing n with
  | leaf => simp [map]
  | node l v r hl hr =>
    cases n with
    | zero => rfl
    | succ n => simp only [map, get?, hl, hr]; split <;> rfl

end CellTree

structure Bank (α : Type) where
  size : Nat
  blank : α
  written : CellTree α

namespace Bank

variable {α β : Type}

/-- A bank of `n` blank cells. -/
def replicate (n : Nat) (blank : α) : Bank α := ⟨n, blank, .leaf⟩

def get (b : Bank α) (i : Nat) : α := (b.written.get? i).getD b.blank

def set (b : Bank α) (i : Nat) (a : α) : Bank α := { b with written := b.written.insert i a }

/-- Writes the items into the cells from `i` on. -/
def write (b : Bank α) (i : Nat) : List α → Bank α
  | [] => b
  | a :: rest => (b.set i a).write (i + 1) rest

def map (f : α → β) (b : Bank α) : Bank β := ⟨b.size, f b.blank, b.written.map f⟩

/-- The items of the `n` cells from `i` on. -/
def slice (b : Bank α) (i n : Nat) : List α := (List.range' i n).map b.get

def toList (b : Bank α) : List α := b.slice 0 b.size

def ofList (blank : α) (items : List α) : Bank α :=
  { (replicate 0 blank).write 0 items with size := items.length }

/-- Puts the items in place of the cells from `start` up to `stop`, for `start ≤ stop ≤ size`. -/
def splice (b : Bank α) (start stop : Nat) (items : List α) : Bank α :=
  if start + items.length = stop then b.write start items
  else if stop = b.size then { b.write start items with size := start + items.length }
  else ofList b.blank (b.slice 0 start ++ items ++ b.slice stop (b.size - stop))

@[simp] theorem get_replicate (n : Nat) (blank : α) (i : Nat) : (replicate n blank).get i = blank := by
  simp [replicate, get]

@[simp] theorem get_set (b : Bank α) (i : Nat) (a : α) (k : Nat) :
    (b.set i a).get k = if k = i then a else b.get k := by
  simp only [set, get, CellTree.get?_insert]
  split <;> rfl

@[simp] theorem size_set (b : Bank α) (i : Nat) (a : α) : (b.set i a).size = b.size := rfl

@[simp] theorem get_map (f : α → β) (b : Bank α) (i : Nat) : (b.map f).get i = f (b.get i) := by
  simp only [map, get, CellTree.get?_map]
  cases b.written.get? i <;> rfl

@[simp] theorem size_map (f : α → β) (b : Bank α) : (b.map f).size = b.size := rfl

@[simp] theorem size_write (b : Bank α) (i : Nat) (items : List α) :
    (b.write i items).size = b.size := by
  induction items generalizing b i with
  | nil => rfl
  | cons a rest ih => simp [write, ih]

theorem get_write (b : Bank α) (i : Nat) (items : List α) (k : Nat) :
    (b.write i items).get k =
      if i ≤ k then (items[k - i]?).getD (b.get k) else b.get k := by
  induction items generalizing b i with
  | nil => simp [write]
  | cons a rest ih =>
    rw [write, ih, get_set]
    rcases Nat.lt_trichotomy k i with h | h | h
    · simp [Nat.not_le.2 h, Nat.ne_of_lt h, show ¬ i + 1 ≤ k by omega]
    · simp [h, show ¬ i + 1 ≤ i by omega]
    · have : k - i = (k - (i + 1)) + 1 := by omega
      simp [this, show i + 1 ≤ k by omega, show i ≤ k by omega, show k ≠ i by omega]

end Bank
end BasicMachine
