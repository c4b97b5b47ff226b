import BasicMachine.Proofs.MemoryBlock
import BasicMachine.Variable

/-! What a string variable holds after any sequence of assignments. A text is stored without a
terminator, so what an earlier and longer text left behind it can show through. -/
namespace BasicMachine

namespace CodePage

theorem decode_injective {a b : List UInt8} (h : decode a = decode b) : a = b := by
  have he := congrArg encode h
  simpa using he

end CodePage

def storedBytes (t : Text) : List UInt8 := (CodePage.encode t).take 127

theorem length_storedBytes_le (t : Text) : (storedBytes t).length ≤ 127 :=
  List.length_take_le 127 _

/-- The text that stored bytes show: the part in front of the first zero byte. -/
def shownText (bytes : List UInt8) : Text := CodePage.decode (bytes.takeWhile (· != 0))

/-- The byte at place `k` after the texts were stored in order: that of the latest text that reaches the
place, and zero if there is none. -/
def leftByte (texts : List Text) (k : Nat) : UInt8 :=
  (texts.reverse.findSome? fun t => (storedBytes t)[k]?).getD 0

def leftBytes (texts : List Text) : List UInt8 := (List.range 127).map (leftByte texts)

theorem getElem?_leftBytes (texts : List Text) (k : Nat) :
    (leftBytes texts)[k]? = if k < 127 then some (leftByte texts k) else none := by
  by_cases h : k < 127
  · simp [leftBytes, h]
  · simp [leftBytes, h]

theorem leftByte_of_le (texts : List Text) {k : Nat} (h : 127 ≤ k) : leftByte texts k = 0 := by
  have hnone : (texts.reverse.findSome? fun t => (storedBytes t)[k]?) = none := by
    rw [List.findSome?_eq_none_iff]
    intro t _
    have := length_storedBytes_le t
    exact List.getElem?_eq_none (by omega)
  rw [leftByte, hnone]
  rfl

theorem leftByte_concat (texts : List Text) (t : Text) (k : Nat) :
    leftByte (texts ++ [t]) k = (storedBytes t)[k]?.getD (leftByte texts k) := by
  rw [leftByte, List.reverse_concat, List.findSome?_cons]
  cases (storedBytes t)[k]? <;> rfl

theorem leftBytes_concat (texts : List Text) (t : Text) :
    leftBytes (texts ++ [t]) = storedBytes t ++ (leftBytes texts).drop (storedBytes t).length := by
  have hlen := length_storedBytes_le t
  apply List.ext_getElem?
  intro k
  rw [getElem?_leftBytes, leftByte_concat, List.getElem?_append, List.getElem?_drop,
    getElem?_leftBytes]
  by_cases hk : k < (storedBytes t).length
  · simp [hk, Nat.lt_of_lt_of_le hk hlen]
  · have hadd : (storedBytes t).length + (k - (storedBytes t).length) = k := by omega
    simp [hk, hadd]

/-- The text that was stored last, as it is shown on its own; without one it is empty. -/
def lastText (texts : List Text) : Text := shownText ((texts.getLast?.map storedBytes).getD [])

/-- Nothing shows behind the last text: it has a zero byte, or the place behind it was left zero. -/
def LastTextAlone (texts : List Text) : Prop :=
  ∀ t ∈ texts.getLast?, 0 ∈ storedBytes t ∨ leftByte texts.dropLast (storedBytes t).length = 0

instance (texts : List Text) : Decidable (LastTextAlone texts) :=
  inferInstanceAs (Decidable (∀ t ∈ texts.getLast?,
    0 ∈ storedBytes t ∨ leftByte texts.dropLast (storedBytes t).length = 0))

private theorem takeWhile_nonzero_append {front : List UInt8} (h : 0 ∈ front) (back : List UInt8) :
    (front ++ back).takeWhile (· != 0) = front.takeWhile (· != 0) := by
  rw [List.takeWhile_append, if_neg]
  intro hlen
  have hself := (List.takeWhile_prefix (p := (· != (0 : UInt8)))).eq_of_length hlen
  have hz := List.takeWhile_eq_self_iff.mp hself 0 h
  exact absurd hz (by decide)

/-- Bytes in front of others show the same text as on their own just when one of them is zero or the
others begin with zero. -/
theorem shownText_append_iff (front back : List UInt8) :
    shownText (front ++ back) = shownText front ↔ 0 ∈ front ∨ ∀ b ∈ back.head?, b = 0 := by
  by_cases hz : 0 ∈ front
  · exact iff_of_true (by rw [shownText, takeWhile_nonzero_append hz]; rfl) (.inl hz)
  have hall : ∀ b ∈ front, (b != 0) = true := by
    intro b hb
    rw [bne_iff_ne]
    rintro rfl
    exact hz hb
  have hshow : shownText (front ++ back) = shownText front ↔ back.takeWhile (· != 0) = [] := by
    rw [shownText, shownText, List.takeWhile_append_of_pos hall, List.takeWhile_eq_self_iff.mpr hall]
    constructor
    · intro h
      simpa using CodePage.decode_injective h
    · intro h
      rw [h, List.append_nil]
  rw [hshow, or_iff_right hz]
  cases back with
  | nil => simp
  | cons b back => simp

theorem shownText_leftBytes_iff (texts : List Text) :
    shownText (leftBytes texts) = lastText texts ↔ LastTextAlone texts := by
  rcases List.eq_nil_or_concat texts with rfl | ⟨earlier, t, rfl⟩
  · exact iff_of_true (by decide) (by decide)
  · have hlast : lastText (earlier ++ [t]) = shownText (storedBytes t) := by simp [lastText]
    have halone : LastTextAlone (earlier ++ [t]) ↔
        0 ∈ storedBytes t ∨ leftByte earlier (storedBytes t).length = 0 := by
      simp [LastTextAlone]
    rw [List.concat_eq_append, leftBytes_concat, hlast, shownText_append_iff, halone, List.head?_drop,
      getElem?_leftBytes]
    split
    · simp
    · next hfull => simp [leftByte_of_le earlier (Nat.not_lt.mp hfull)]

namespace Machine

def stringName (i : Fin 8) : Text := ['$', Char.ofNat (49 + i)]

def blockStart (i : Fin 8) : Nat := 16640 + 128 * i

theorem blockStart_lt (i : Fin 8) : blockStart i + 127 < 17664 := by
  unfold blockStart
  omega

theorem stringAddress_stringName (i : Fin 8) :
    stringAddress (stringName i) = .ok (blockStart i : Int) := by
  revert i
  decide +kernel

def stringBlock (m : Memory) (i : Fin 8) : List UInt8 := m.slice (blockStart i) 127

theorem stringBlock_fresh (i : Fin 8) : stringBlock Memory.fresh i = leftBytes [] := by
  apply List.ext_getElem?
  intro k
  rw [stringBlock, Bank.getElem?_slice, getElem?_leftBytes, Memory.fresh, Bank.get_replicate]
  rfl

/-- Storing a text in one variable covers the front of its block and leaves the other blocks alone. -/
theorem stringBlock_write (m : Memory) (i j : Fin 8) (t : Text) :
    stringBlock (m.write (blockStart j) (storedBytes t)) i =
      if i = j then storedBytes t ++ (stringBlock m i).drop (storedBytes t).length
      else stringBlock m i := by
  have hlen := length_storedBytes_le t
  split
  · next h =>
    subst h
    exact Bank.slice_write hlen
  · next h =>
    apply Bank.slice_write_outside
    unfold blockStart
    omega

theorem string_stringName {m : Machine} (h : 17664 ≤ m.memory.size) (i : Fin 8) :
    m.string (stringName i) = .ok (shownText (stringBlock m.memory i)) := by
  have hfit : blockStart i + 127 ≤ m.memory.size := Nat.le_trans (Nat.le_of_lt (blockStart_lt i)) h
  have hread := Memory.readString_natCast m.memory (blockStart i) 127 0 (by decide)
  rw [Memory.between_inside hfit] at hread
  rw [string, stringAddress_stringName]
  exact hread

theorem run_setString {m : Machine} (h : 17664 ≤ m.memory.size) (i : Fin 8) (t : Text) :
    (setString (stringName i) t).run m =
      (.ok (), { m with memory := m.memory.write (blockStart i) (storedBytes t) }) := by
  have hfit : blockStart i + 127 ≤ m.memory.size := Nat.le_trans (Nat.le_of_lt (blockStart_lt i)) h
  have hwrite : m.memory.writeString (blockStart i) t stringLimit =
      m.memory.write (blockStart i) (storedBytes t) := Memory.writeString_inside hfit
  have haddr : (Run.ofExcept (stringAddress (stringName i)) : Action Int).run m =
      (.ok (blockStart i : Int), m) := by
    rw [Run.run_ofExcept, stringAddress_stringName]
  rw [setString, Run.run_bind_ok haddr, Run.run_modify, hwrite]

def setStrings (calls : List (Fin 8 × Text)) : Action Unit :=
  calls.forM fun c => setString (stringName c.1) c.2

theorem setStrings_cons (c : Fin 8 × Text) (calls : List (Fin 8 × Text)) :
    setStrings (c :: calls) = setString (stringName c.1) c.2 >>= fun _ => setStrings calls := rfl

def textsOf (i : Fin 8) (calls : List (Fin 8 × Text)) : List Text :=
  (calls.filter fun c => c.1 = i).map (·.2)

/-- Assignments never fail, and every block holds what its own texts left there. -/
theorem run_setStrings {m : Machine} (h : 17664 ≤ m.memory.size) (texts : Fin 8 → List Text)
    (hb : ∀ i, stringBlock m.memory i = leftBytes (texts i)) (calls : List (Fin 8 × Text)) :
    ∃ m', (setStrings calls).run m = (.ok (), m') ∧ 17664 ≤ m'.memory.size ∧
      ∀ i, stringBlock m'.memory i = leftBytes (texts i ++ textsOf i calls) := by
  induction calls generalizing m texts with
  | nil => exact ⟨m, rfl, h, fun i => by simpa [textsOf] using hb i⟩
  | cons c calls ih =>
    obtain ⟨j, t⟩ := c
    have hset := run_setString h j t
    have hstep (i : Fin 8) : stringBlock (m.memory.write (blockStart j) (storedBytes t)) i =
        leftBytes (if j = i then texts i ++ [t] else texts i) := by
      rw [stringBlock_write, hb i]
      by_cases hij : j = i
      · subst hij
        simp [leftBytes_concat]
      · simp [hij, Ne.symm hij]
    have hfit : 17664 ≤ (m.memory.write (blockStart j) (storedBytes t)).size := by
      rwa [Bank.size_write]
    obtain ⟨m', hrun, hsize, hblocks⟩ := @ih
      { m with memory := m.memory.write (blockStart j) (storedBytes t) } hfit _ hstep
    refine ⟨m', ?_, hsize, fun i => ?_⟩
    · rw [setStrings_cons, Run.run_bind_ok hset, hrun]
    · rw [hblocks i]
      by_cases hij : j = i
      · simp [textsOf, hij]
      · simp [textsOf, hij]

/-- The last assignment to a string variable is what is read back just when nothing of an earlier text
shows behind it. In every case the assignments succeed, and what is read are the bytes that all texts
of the variable left in its block. -/
theorem string_after_setStrings (m : Machine) (calls : List (Fin 8 × Text)) (i : Fin 8) :
    ∃ m', (setStrings calls).run { m with memory := Memory.fresh } = (.ok (), m') ∧
      m'.string (stringName i) = .ok (shownText (leftBytes (textsOf i calls))) ∧
      (m'.string (stringName i) = .ok (lastText (textsOf i calls)) ↔
        LastTextAlone (textsOf i calls)) := by
  obtain ⟨m', hrun, hsize, hblocks⟩ := @run_setStrings { m with memory := Memory.fresh }
    (by decide : 17664 ≤ Memory.fresh.size) (fun _ => []) stringBlock_fresh calls
  have hread : m'.string (stringName i) = .ok (shownText (leftBytes (textsOf i calls))) := by
    rw [string_stringName hsize, hblocks i, List.nil_append]
  refine ⟨m', hrun, hread, ?_⟩
  rw [hread, Except.ok.injEq, shownText_leftBytes_iff]

/-- `$1 = "HELLO"` and `$1 = "AB"`. -/
def longThenShort : List (Fin 8 × Text) := [(0, "HELLO".toList), (0, "AB".toList)]

/-- A shorter text does not replace a longer one. -/
theorem string_after_shorter :
    ((setStrings longThenShort).run {}).2.string (stringName 0) = .ok "ABLLO".toList ∧
      ((setStrings longThenShort).run {}).2.string (stringName 0) ≠
        .ok (lastText (textsOf 0 longThenShort)) := by
  decide +kernel

end Machine
end BasicMachine
