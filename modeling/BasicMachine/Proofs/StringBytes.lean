import BasicMachine.Proofs.WordStores

/-! Single bytes of a string variable. `STRING` replaces one character of the text, and the text goes through
the code page twice: the bytes that were there come back as they were, but the new number is taken for a code
point and stored as the byte of that character. Only in the lower half of the page are the two the same. -/
namespace BasicMachine

namespace Bank

variable {α : Type}

/-- Items that stand in their place already, with one of them replaced, change that cell and no other. -/
theorem get_write_replaced {b : Bank α} {i k : Nat} {items : List α} (hk : k < items.length)
    (hitems : ∀ j a, items[j]? = some a → b.get (i + j) = a) (a : α) (j : Nat) :
    (b.write i (items.set k a)).get j = if j = i + k then a else b.get j := by
  rw [get_write]
  by_cases hj : i ≤ j
  · obtain ⟨d, rfl⟩ := Nat.exists_eq_add_of_le hj
    rw [if_pos hj, Nat.add_sub_cancel_left, List.getElem?_set]
    by_cases hd : k = d
    · simp [hd, hd ▸ hk]
    · have hother : ¬i + d = i + k := by omega
      rw [if_neg hd, if_neg hother]
      cases hitem : items[d]? with
      | none => rfl
      | some c => exact (hitems d c hitem).symm
  · have hother : ¬j = i + k := by omega
    rw [if_neg hj, if_neg hother]

end Bank

namespace CodePage

/-- The byte of the character with a code point, and that of a question mark if the page has no such
character. -/
def byteOfCode (v : Nat) : UInt8 := (encodeChar? (Char.ofNat v)).getD 63

theorem encode_set (t : Text) (k : Nat) (c : Char) :
    encode (t.set k c) = (encode t).set k ((encodeChar? c).getD 63) := List.map_set

private theorem byteOfCode_eq_iff_of_all :
    ∀ v < 256, byteOfCode v = UInt8.ofNat v ↔ v < 128 := by
  decide +kernel

/-- No code point of the upper half is the number of its own byte. -/
theorem byteOfCode_eq_iff {v : Nat} (h : v < 256) : byteOfCode v = UInt8.ofNat v ↔ v < 128 :=
  byteOfCode_eq_iff_of_all v h

end CodePage

theorem charOfCode_natCast {v : Nat} (h : v < 256) : charOfCode v = .ok (Char.ofNat v) := by
  unfold charOfCode
  rw [if_neg (by omega), if_neg (by omega), if_neg (by omega), Int.toNat_natCast]

theorem Command.replaceChar_natCast {t : Text} {k : Nat} (h : k < t.length) (c : Char) :
    replaceChar t k c = t.set k c := by
  have hnext : (k : Int) + 1 = ((k + 1 : Nat) : Int) := by simp
  rw [replaceChar, takeTo_natCast, hnext, dropTo_natCast, List.set_eq_take_append_cons_drop, if_pos h,
    List.append_assoc, List.singleton_append]

/-- What is stored of a shown text with one character replaced: the bytes that are shown, with the byte of the
new character in its place. -/
theorem storedBytes_set_shownText {block : List UInt8} (hblock : block.length ≤ 127) (k : Nat) (c : Char) :
    storedBytes ((shownText block).set k c) =
      (block.takeWhile (· != 0)).set k ((CodePage.encodeChar? c).getD 63) := by
  have hshown : (block.takeWhile (· != 0)).length ≤ block.length :=
    (List.takeWhile_sublist _).length_le
  rw [storedBytes, CodePage.encode_set, shownText, CodePage.encode_decode, List.take_of_length_le]
  rw [List.length_set]
  omega

theorem length_shownText (block : List UInt8) :
    (shownText block).length = (block.takeWhile (· != 0)).length :=
  List.length_map _

namespace Memory

section Places

variable {m : Memory} {i : Nat}

theorem leadsTo_natCast (hi : i < m.size) (hsmall : (i : Int) < indexLimit) : m.LeadsTo i i := by
  refine ⟨⟨?_, hsmall⟩, hi, .inl rfl⟩
  unfold indexLimit
  omega

theorem Stores.get_of_leadsTo {m' : Memory} {a : Int} {b : UInt8} (h : m.Stores a [b] m')
    (hi : m.LeadsTo a i) : m'.get i = b := by
  obtain ⟨j, hj, hget⟩ := h.each 0 b rfl
  rw [hi.unique (by simpa using hj), hget]

theorem Stores.byte_unique {m' : Memory} {a : Int} {b c : UInt8} (h : m.Stores a [b] m')
    (h' : m.Stores a [c] m') : b = c := by
  obtain ⟨i, hi, hget⟩ := h.each 0 b rfl
  rw [← hget, h'.get_of_leadsTo (by simpa using hi)]

end Places

end Memory

namespace Machine

/-- The line replaces the character at the offset `k` of a string variable by the number `v`. -/
inductive Replaces (m : Machine) (line name : Text) (k v : Int) : Prop
  | intro {w : Text} {tk tv : Token} {rest : List Token}
      (parsed : Token.parse line = .ok (.word w :: .stringVar name :: tk :: tv :: rest))
      (command : Command.ofName? (upper w) = some .string) (offset : tk.toNumeric m = .ok k)
      (value : tv.toNumeric m = .ok v)

theorem get_of_getElem?_takeWhile {m : Memory} {i : Fin 8} {j : Nat} {b : UInt8} {p : UInt8 → Bool}
    (h : ((stringBlock m i).takeWhile p)[j]? = some b) : m.get (blockStart i + j) = b := by
  obtain ⟨rest, hrest⟩ := List.takeWhile_prefix (l := stringBlock m i) p
  have hblock : ((stringBlock m i).takeWhile p ++ rest)[j]? = some b := by
    rw [List.getElem?_append_left (List.getElem?_eq_some_iff.mp h).1, h]
  rw [hrest, stringBlock, Bank.getElem?_slice] at hblock
  split at hblock
  · exact Option.some.inj hblock
  · exact absurd hblock (by simp)

section Step

variable {m : Machine} {line name t : Text}

/-- The line is logged, and the text with the new character is stored in the variable. -/
theorem Replaces.run {k v : Int} {c : Char} (h : m.Replaces line name k v)
    (htext : m.string name = .ok t) (hchar : charOfCode v = .ok c) :
    ∃ con, (runLine line).run m =
      (setString name (Command.replaceChar t k c)).run { m with console := con } := by
  obtain @⟨w, tk, tv, rest, hparse, hcommand, hoffset, hvalue⟩ := h
  obtain ⟨con, hline⟩ := run_commandLine hparse hcommand m
  have hview : SameView m { m with console := con } := ⟨rfl, rfl, rfl⟩
  have hfirst : Arguments.Has (.word w :: .stringVar name :: tk :: tv :: rest) 1 (.stringVar name) :=
    ⟨by decide, by decide, rfl⟩
  have hsecond : Arguments.Has (.word w :: .stringVar name :: tk :: tv :: rest) 2 tk :=
    ⟨by decide, by decide, rfl⟩
  have hthird : Arguments.Has (.word w :: .stringVar name :: tk :: tv :: rest) 3 tv :=
    ⟨by decide, by decide, rfl⟩
  rw [← hview.string] at htext
  refine ⟨con, ?_⟩
  rcases hrun : (setString name (Command.replaceChar t k c)).run { m with console := con }
    with ⟨result, n⟩
  refine hline result ⟨n, ⟨.word w :: .stringVar name :: tk :: tv :: rest, 4⟩⟩ ?_
  change Command.runString.run _ = _
  simp only [Command.runString, Call.nextStringVar, Call.nextNumeric, Run.run_bind, Call.run_nextAs _ hfirst,
    Token.toStringVar, Call.run_liftM, run_ask, htext]
  simp only [Int.reduceAdd, Call.run_nextAs _ hsecond, hview.toNumeric, hoffset]
  simp only [Int.reduceAdd, Call.run_nextAs _ hthird, hview.toNumeric, hvalue, Run.run_ofExcept, hchar,
    hrun]

/-- The new character goes over the old one, and no other byte of the memory changes. -/
theorem run_setString_replaced (hsize : 17664 ≤ m.memory.size) {a k : Nat}
    (hname : stringAddress name = .ok (a : Int)) (htext : m.string name = .ok t) (hk : k < t.length)
    (c : Char) :
    ∃ n, (setString name (t.set k c)).run m = (.ok (), n) ∧
      m.memory.Stores (a + k : Nat) [(CodePage.encodeChar? c).getD 63] n.memory := by
  obtain ⟨i, hi⟩ := exists_blockStart hname
  obtain rfl : a = blockStart i := by exact_mod_cast hi
  have hsame : stringAddress name = stringAddress (stringName i) := by rw [hname, stringAddress_stringName]
  have hset : setString name (t.set k c) = setString (stringName i) (t.set k c) := by
    rw [setString, setString, hsame]
  have hstring : m.string name = m.string (stringName i) := by rw [string, string, hsame]
  rw [hstring, string_stringName hsize, Except.ok.injEq] at htext
  subst htext
  have hlength : (stringBlock m.memory i).length = 127 := Bank.length_slice ..
  have hinside := blockStart_lt i
  have hshown : (shownText (stringBlock m.memory i)).length ≤ 127 := by
    rw [← hlength, length_shownText]
    exact (List.takeWhile_sublist _).length_le
  have hleads : m.memory.LeadsTo (blockStart i + k : Nat) (blockStart i + k) := by
    refine Memory.leadsTo_natCast (by omega) ?_
    unfold indexLimit
    omega
  refine ⟨_, (congrArg (Run.run · m) hset).trans (run_setString hsize i _), ?_⟩
  rw [storedBytes_set_shownText (Nat.le_of_eq hlength)]
  refine Memory.stores_of_get hleads _ (Bank.size_write ..) fun j => ?_
  exact Bank.get_write_replaced (length_shownText _ ▸ hk) (fun _ _ => get_of_getElem?_takeWhile) _ j

end Step

/-- A byte that a line with `STRING` puts into the text of a variable is stored as it was given exactly if it
is in the lower half of the code page. In every case the line succeeds, the byte that is stored is the one of
the character with that code point, and no other byte of the memory changes. -/
theorem string_stores_byte_iff (m : Machine) (line name t : Text) (a k v : Nat)
    (hsize : 17664 ≤ m.memory.size) (hname : stringAddress name = .ok (a : Int))
    (htext : m.string name = .ok t) (hk : k < t.length) (hv : v < 256) (hline : m.Replaces line name k v) :
    ∃ n, (runLine line).run m = (.ok (), n) ∧
      m.memory.Stores (a + k : Nat) [CodePage.byteOfCode v] n.memory ∧
      (m.memory.Stores (a + k : Nat) [UInt8.ofNat v] n.memory ↔ v < 128) := by
  obtain ⟨con, hrun⟩ := hline.run htext (charOfCode_natCast hv)
  rw [Command.replaceChar_natCast hk] at hrun
  have hview : SameView m { m with console := con } := ⟨rfl, rfl, rfl⟩
  obtain ⟨n, hset, hstores⟩ := @run_setString_replaced { m with console := con } name t hsize a k hname
    ((hview.string name).trans htext) hk (Char.ofNat v)
  refine ⟨n, hrun.trans hset, hstores, ?_⟩
  rw [← CodePage.byteOfCode_eq_iff hv]
  constructor
  · exact hstores.byte_unique
  · intro hbyte
    rw [← hbyte]
    exact hstores

/-- `$1` is "AB" and everything else is blank. -/
def holdsLetters : Machine := ((setString "$1".toList "AB".toList).run {}).2

/-- `STRING $1 1 67` makes "AC" of "AB". -/
theorem string_stores_byte_letter :
    ∃ n, (runLine "STRING $1 1 67".toList).run holdsLetters = (.ok (), n) ∧
      holdsLetters.memory.Stores (16640 + 1 : Nat) [UInt8.ofNat 67] n.memory := by
  have hline : holdsLetters.Replaces "STRING $1 1 67".toList "$1".toList (1 : Nat) (67 : Nat) :=
    @Replaces.intro _ _ _ _ _ "STRING".toList (.number 1) (.number 67) [] (by decide +kernel)
      (by decide +kernel) rfl rfl
  obtain ⟨n, hrun, -, hstores⟩ := string_stores_byte_iff holdsLetters _ "$1".toList "AB".toList 16640 1 67
    (by decide +kernel) (by decide +kernel) (by decide +kernel) (by decide) (by decide) hline
  exact ⟨n, hrun, hstores.mpr (by decide)⟩

/-- `STRING $1 0 130` stores a question mark in place of the byte 130. -/
theorem string_stores_questionMark :
    ((runLine "STRING $1 0 130".toList).run holdsLetters).1 = .ok () ∧
      ¬holdsLetters.memory.Stores (16640 : Nat) [UInt8.ofNat 130]
        ((runLine "STRING $1 0 130".toList).run holdsLetters).2.memory := by
  have hrun : ((runLine "STRING $1 0 130".toList).run holdsLetters).1 = .ok () ∧
      ((runLine "STRING $1 0 130".toList).run holdsLetters).2.memory.get 16640 = 63 := by
    decide +kernel
  have hleads : holdsLetters.memory.LeadsTo (16640 : Nat) 16640 :=
    Memory.leadsTo_natCast (by decide +kernel) (by decide)
  refine ⟨hrun.1, fun hstores => ?_⟩
  have hbyte := hstores.get_of_leadsTo hleads
  rw [hrun.2] at hbyte
  exact absurd hbyte (by decide)

end Machine
end BasicMachine
