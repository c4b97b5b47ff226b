import BasicMachine.Proofs.LabelSearch
import BasicMachine.Proofs.PromptLikeness
import BasicMachine.Proofs.Subroutines

/-! A program with and without a newline behind its last line, on two machines side by side. Their memories
differ in that one byte, and the sizes of their programs by one. A label ends in a colon, so it is found at
the same place on both sides. Where a newline of the complete lines follows an address, the same line stands
there on both sides; behind the complete lines there is no line on one side, and a last one on the other. -/
namespace BasicMachine

open Run (Alike Steady)

namespace Memory

theorem search_congr {p q : Nat → Bool} {i n : Nat} (h : ∀ j < n, q (i + j) = p (i + j)) :
    search q i n = search p i n := by
  induction n generalizing i with
  | zero => rfl
  | succ n ih =>
    have hfirst : q i = p i := h 0 (by omega)
    have hrest : ∀ j < n, q (i + 1 + j) = p (i + 1 + j) := by
      intro j hj
      rw [Nat.add_assoc, Nat.add_comm 1 j]
      exact h (j + 1) (by omega)
    rw [search, search, hfirst, ih hrest]

theorem search_eq_none_spec {p : Nat → Bool} {i n : Nat} (h : search p i n = none) {j : Nat} (hj : i ≤ j)
    (hjn : j < i + n) : p j = false := by
  induction n generalizing i with
  | zero => omega
  | succ n ih =>
    rw [search] at h
    split at h
    · cases h
    · next hi =>
      by_cases hij : j = i
      · rw [hij]
        simpa using hi
      · exact ih h (by omega) (by omega)

theorem bound_of_searchStart {m : Memory} {a : Int} (h : m.searchStart a < m.size) :
    bound m.size a = m.searchStart a := by
  unfold searchStart at h ⊢
  split
  · rfl
  · next ha =>
    rw [if_neg ha] at h
    rw [bound, if_neg ha, Nat.min_eq_left (Nat.le_of_lt h)]

theorem nextLine_eq (m : Memory) (a : Int) :
    m.nextLine a = (search (fun i => m.get i == newline) (m.searchStart a)
      (m.size - m.searchStart a)).elim (.error .noNewline) fun i => .ok (i + 1) := by
  simp only [nextLine, searchStart]
  cases search (fun i => m.get i == newline) (if a < 0 then bound m.size a else a.toNat)
    (m.size - if a < 0 then bound m.size a else a.toNat) <;> rfl

/-- A line is what stands in front of the first newline in the part that is looked at. -/
theorem readLine_eq (m : Memory) (a : Int) :
    m.readLine a = .ok (CodePage.decode ((m.between a (a + 255)).takeWhile (· != newline))) := by
  have hlength : (m.between a (a + 255)).length ≤ 255 := by
    rw [between, Bank.length_slice]
    unfold bound
    split <;> split <;> omega
  rw [readLine, readString, if_neg (by decide)]
  dsimp only
  split
  · rfl
  · next hnone =>
    have hall : ∀ b ∈ m.between a (a + 255), (b != newline) = true := by
      intro b hb
      rw [bne_iff_ne]
      rintro rfl
      exact hnone (List.contains_iff_mem.mpr hb)
    have hwhole := takeTo_natCast 255 (m.between a (a + 255))
    rw [List.take_of_length_le hlength] at hwhole
    rw [List.takeWhile_eq_self_iff.mpr hall]
    exact congrArg (fun bytes => Except.ok (CodePage.decode bytes)) hwhole

theorem takeWhile_slice_congr {c d : Memory} {s n : Nat}
    (h : ∀ k, s ≤ k → k < s + n → (∀ j, s ≤ j → j < k → c.get j ≠ newline) → d.get k = c.get k) :
    (d.slice s n).takeWhile (· != newline) = (c.slice s n).takeWhile (· != newline) := by
  induction n generalizing s with
  | zero => rfl
  | succ n ih =>
    have hslice (m : Memory) : m.slice s (n + 1) = m.get s :: m.slice (s + 1) n := rfl
    have hfirst : d.get s = c.get s := h s (Nat.le_refl s) (by omega) fun j hj hjs => by omega
    rw [hslice, hslice, hfirst, List.takeWhile_cons, List.takeWhile_cons]
    split
    · next hs =>
      rw [ih]
      intro k hk hkn hclean
      apply h k (by omega) (by omega)
      intro j hj hjk
      by_cases hjs : j = s
      · rw [hjs]
        exact bne_iff_ne.mp hs
      · exact hclean j (by omega) hjk
    · rfl

section Congr

variable {c d : Memory} (hsize : d.size = c.size) {a : Int}
include hsize

theorem nextLine_congr (hget : ∀ k, c.searchStart a ≤ k → k < c.size → d.get k = c.get k) :
    d.nextLine a = c.nextLine a := by
  have hstart : d.searchStart a = c.searchStart a := by rw [searchStart, searchStart, hsize]
  rw [nextLine_eq, nextLine_eq, hstart, hsize, search_congr]
  intro j hj
  rw [hget _ (Nat.le_add_right _ _) (by omega)]

theorem readLine_congr (hget : ∀ k, bound c.size a ≤ k → k < c.size → d.get k = c.get k) :
    d.readLine a = c.readLine a := by
  have hbound := bound_le c.size (a + 255)
  rw [readLine_eq, readLine_eq, between, between, hsize, Bank.slice_congr]
  intro k hk _
  exact hget k hk (by omega)

end Congr

/-- Two memories with the same bytes in front of the program, which is `p` and `t` in both, and in the second
one a newline behind it. -/
structure Twins (p t : List UInt8) (c d : Memory) : Prop where
  left : Ends c 32768 (p ++ t)
  right : Ends d 32768 (p ++ t ++ [newline])
  below : ∀ k < 32768, d.get k = c.get k

/-- What is found at an address: the same line in both memories, a last line in the second one alone, or no
line. -/
inductive FindsAt (p t : List UInt8) (c d : Memory) (a : Int) : Prop
  | same {b : Nat} (left : c.nextLine a = .ok b) (right : d.nextLine a = .ok b)
    (line : d.readLine a = c.readLine a) (start : c.searchStart a < 32768 + p.length) : FindsAt p t c d a
  | last (left : c.nextLine a = .error .noNewline)
    (right : d.nextLine a = .ok (32768 + (p ++ t).length + 1)) : FindsAt p t c d a
  | none (left : c.nextLine a = .error .noNewline) (right : d.nextLine a = .error .noNewline) :
    FindsAt p t c d a

namespace Twins

variable {p t : List UInt8} {c d : Memory} (h : Twins p t c d)
include h

theorem sizes : d.size = c.size := h.right.size.trans h.left.size.symm

theorem end_lt : 32768 + (p ++ t).length < 65536 := by
  have hfits := h.right.fits
  rw [List.length_append] at hfits
  exact hfits

theorem get_of_ne {k : Nat} (hk : k < 65536) (hne : k ≠ 32768 + (p ++ t).length) :
    d.get k = c.get k := by
  by_cases hbelow : k < 32768
  · exact h.below k hbelow
  · obtain ⟨j, rfl⟩ : ∃ j, k = 32768 + j := ⟨k - 32768, by omega⟩
    rw [h.right.byte j hk, h.left.byte j hk]
    by_cases hj : j < (p ++ t).length
    · rw [List.getElem?_append_left hj]
    · rw [List.getElem?_eq_none (Nat.not_lt.mp hj), List.getElem?_eq_none]
      simp only [List.length_append, List.length_singleton] at hne hj ⊢
      omega

theorem get_end : d.get (32768 + (p ++ t).length) = newline := by
  rw [h.right.byte _ h.end_lt, List.getElem?_append_right (Nat.le_refl _), Nat.sub_self]
  rfl

theorem not_newline (ht : newline ∉ t) {k : Nat} (hfirst : 32768 + p.length ≤ k) (hk : k < 65536) :
    c.get k ≠ newline := by
  obtain ⟨j, rfl⟩ : ∃ j, k = 32768 + p.length + j := ⟨k - (32768 + p.length), by omega⟩
  rw [h.left.drop.byte j hk]
  cases hbyte : t[j]? with
  | none => exact Ne.symm (by decide)
  | some b =>
    rintro rfl
    exact ht (List.mem_of_getElem? hbyte)

theorem write {i : Nat} {bytes : List UInt8} (hbelow : i + bytes.length ≤ 32768) :
    Twins p t (c.write i bytes) (d.write i bytes) where
  left := h.left.congr (by rw [Bank.size_write, h.left.size]) fun k hk =>
    Bank.get_write_outside (by omega)
  right := h.right.congr (by rw [Bank.size_write, h.right.size]) fun k hk =>
    Bank.get_write_outside (by omega)
  below k hk := by rw [Bank.get_write, Bank.get_write, h.below k hk]

theorem searchStart_eq (a : Int) : d.searchStart a = c.searchStart a := by
  rw [searchStart, searchStart, h.sizes]

/-- A newline of the first memory is in the complete lines, and up to there the memories are the same. -/
theorem findsAt_of_some (ht : newline ∉ t) {a : Int} {i : Nat}
    (hsearch : search (fun i => c.get i == newline) (c.searchStart a) (c.size - c.searchStart a) = some i) :
    FindsAt p t c d a := by
  obtain ⟨hfrom, hinside, hi, hfirst⟩ := search_eq_some_spec hsearch
  have hnewline : c.get i = newline := eq_of_beq hi
  have hend := h.end_lt
  have hsize : i < 65536 := by
    have := h.left.size
    omega
  have hline : i < 32768 + p.length := by
    by_contra hbehind
    exact h.not_newline ht (Nat.not_lt.mp hbehind) hsize hnewline
  have hagree : ∀ k ≤ i, d.get k = c.get k := by
    intro k hk
    apply h.get_of_ne (by omega)
    rw [List.length_append]
    omega
  have hright : search (fun i => d.get i == newline) (c.searchStart a) (c.size - c.searchStart a) =
      some i := by
    obtain ⟨k, rfl⟩ : ∃ k, i = c.searchStart a + k := ⟨i - c.searchStart a, by omega⟩
    apply search_eq_some (by omega)
    · rw [hagree _ (Nat.le_refl _)]
      exact hi
    · intro j hj
      rw [hagree _ (by omega)]
      exact hfirst _ (by omega) (by omega)
  apply FindsAt.same (b := i + 1)
  · rw [nextLine_eq, hsearch, Option.elim_some]
  · rw [nextLine_eq, h.searchStart_eq, h.sizes, hright, Option.elim_some]
  · -- A line stops at its newline at the latest, so it is read from where the memories are the same.
    have hsame : bound c.size a = c.searchStart a := bound_of_searchStart (by omega)
    rw [readLine_eq, readLine_eq, between, between, h.sizes, takeWhile_slice_congr]
    intro k hk _ hclean
    apply hagree
    by_contra hik
    exact hclean i (by omega) (by omega) hnewline
  · omega

/-- If the first memory has no newline from the address on, the second one has its last newline at most. -/
theorem findsAt_of_none {a : Int}
    (hsearch : search (fun i => c.get i == newline) (c.searchStart a) (c.size - c.searchStart a) = none) :
    FindsAt p t c d a := by
  have hleft : c.nextLine a = .error .noNewline := by rw [nextLine_eq, hsearch, Option.elim_none]
  have hclean {j : Nat} (hj : c.searchStart a ≤ j) (hsize : j < 65536) : (c.get j == newline) = false :=
    search_eq_none_spec hsearch hj (by rw [h.left.size]; omega)
  have hend := h.end_lt
  by_cases hbehind : c.searchStart a ≤ 32768 + (p ++ t).length
  · apply FindsAt.last hleft
    obtain ⟨k, hk⟩ : ∃ k, 32768 + (p ++ t).length = c.searchStart a + k :=
      ⟨32768 + (p ++ t).length - c.searchStart a, by omega⟩
    have hright : search (fun i => d.get i == newline) (c.searchStart a) (65536 - c.searchStart a) =
        some (c.searchStart a + k) := by
      apply search_eq_some (by omega)
      · rw [← hk, h.get_end]
        rfl
      · intro j hj
        rw [h.get_of_ne (by omega) (by omega)]
        exact hclean (by omega) (by omega)
    rw [nextLine_eq, h.searchStart_eq, h.right.size, hright, Option.elim_some, hk]
  · apply FindsAt.none hleft
    have hright : search (fun i => d.get i == newline) (c.searchStart a) (65536 - c.searchStart a) =
        none := by
      apply search_eq_none
      intro j hj
      rw [h.get_of_ne (by omega) (by omega)]
      exact hclean (by omega) (by omega)
    rw [nextLine_eq, h.searchStart_eq, h.right.size, hright, Option.elim_none]

theorem findsAt (ht : newline ∉ t) (a : Int) : FindsAt p t c d a := by
  cases hsearch : search (fun i => c.get i == newline) (c.searchStart a) (c.size - c.searchStart a) with
  | some i => exact h.findsAt_of_some ht hsearch
  | none => exact h.findsAt_of_none hsearch

/-- From a place in the complete lines a newline is found, the same on both sides. -/
theorem nextLine_of_start (ht : newline ∉ t) (hp : p.getLast? = some newline) {a : Int}
    (hstart : c.searchStart a < 32768 + p.length) : d.nextLine a = c.nextLine a := by
  obtain ⟨q, rfl⟩ := List.getLast?_eq_some_iff.mp hp
  have hend := h.end_lt
  simp only [List.length_append, List.length_singleton] at hstart hend
  have hnewline : c.get (32768 + q.length) = newline := by
    rw [h.left.byte _ (by omega), List.append_assoc, List.getElem?_append_right (Nat.le_refl _),
      Nat.sub_self]
    rfl
  have hfound : c.nextLine a ≠ .error .noNewline := by
    intro hnone
    rw [nextLine_eq] at hnone
    cases hsearch : search (fun i => c.get i == newline) (c.searchStart a)
        (c.size - c.searchStart a) with
    | some i => simp [hsearch] at hnone
    | none =>
      have hclean := search_eq_none_spec hsearch (j := 32768 + q.length) (by omega)
        (by rw [h.left.size]; omega)
      simp [hnewline] at hclean
  rcases h.findsAt ht a with ⟨hleft, hright, -, -⟩ | ⟨hleft, -⟩ | ⟨hleft, -⟩
  · rw [hleft, hright]
  · exact absurd hleft hfound
  · exact absurd hleft hfound

end Twins
end Memory

/-- A byte behind the text matters only to marks that end in it. -/
theorem firstPlace_concat {mark : List UInt8} {b : UInt8} (hmark : mark ≠ [])
    (hlast : mark.getLast? ≠ some b) (text : List UInt8) :
    firstPlace mark (text ++ [b]) = firstPlace mark text := by
  have hends (text : List UInt8) : mark.isPrefixOf (text ++ [b]) = mark.isPrefixOf text := by
    rw [Bool.eq_iff_iff, List.isPrefixOf_iff_prefix, List.isPrefixOf_iff_prefix, List.prefix_concat_iff,
      or_iff_right]
    rintro rfl
    exact hlast List.getLast?_concat
  induction text with
  | nil =>
    have hno : ¬mark.isPrefixOf [b] = true := by
      have hnil := hends []
      rw [List.nil_append] at hnil
      rw [hnil, List.isPrefixOf_iff_prefix, List.prefix_nil]
      exact hmark
    exact if_neg hno
  | cons a text ih => rw [List.cons_append, firstPlace, firstPlace, ← List.cons_append, hends, ih]

theorem Label.getLast?_mark (label : Text) : (mark label).getLast? ≠ some Memory.newline := by
  have hmark : mark label = CodePage.encode label ++ [58] := by
    simp only [mark, CodePage.encode, List.map_append]
    rfl
  rw [hmark, List.getLast?_concat]
  decide

namespace Command

/-- The command looks at the bytes of the memory, or writes to the memory at an address of its own. -/
def touchesMemory : Command → Bool
  | includeFile | load | save | peek | poke | peekInt | pokeInt | readData => true
  | _ => false

end Command

/-- The tokens begin with no command that looks at the bytes of the memory or writes to it. -/
def Blind (tokens : List Token) : Prop := ∀ c ∈ Command.commandOf? tokens, c.touchesMemory = false

instance (tokens : List Token) : Decidable (Blind tokens) :=
  inferInstanceAs (Decidable (∀ c ∈ Command.commandOf? tokens, c.touchesMemory = false))

/-- The program is `p` and `t` on both sides, and has a newline behind it on the second. All else is the same,
no command that is typed looks at the memory, and the line that runs is one of `p`. -/
structure Unended (p t : List UInt8) (c d : Core) : Prop where
  memory : Memory.Twins p t c.memory d.memory
  left : c.settings = setNamed "prog_size".toList ((p ++ t).length : Int) Settings.initial
  right : d.settings =
    setNamed "prog_size".toList ((p ++ t ++ [Memory.newline]).length : Int) Settings.initial
  control : d.control = c.control
  input : d.input = c.input
  typed : ∀ line ∈ c.input, ∀ tokens ∈ Debugger.typedTokens line, Blind tokens
  counter : c.memory.searchStart c.control.counter < 32768 + p.length

theorem Machine.loaded_of_ends {m : Machine} {program : List UInt8}
    (hmemory : Memory.Ends m.memory 32768 program)
    (hsettings : m.settings = setNamed "prog_size".toList (program.length : Int) Settings.initial) :
    Loaded m program where
  size := by
    rw [programSize, setting, hsettings, lookup_setNamed]
    rfl
  fits := by
    rw [hmemory.size]
    exact hmemory.fits
  bytes := by
    have hslice := hmemory.slice (Nat.le_refl _)
    rwa [List.take_length] at hslice

namespace Unended

variable {p t : List UInt8}

section Values

variable {m n : Machine} (h : Alongside (Unended p t) m n)
include h

theorem setting_eq {name : Text} (hname : name ≠ "prog_size".toList) : n.setting name = m.setting name := by
  rw [Machine.setting, Machine.setting, show m.settings = _ from h.core.left,
    show n.settings = _ from h.core.right, lookup_setNamed, lookup_setNamed, if_neg hname, if_neg hname]

theorem numeric_eq (name : Text) : n.numeric name = m.numeric name := by
  have hleft : m.memory.size = 65536 := h.core.memory.left.size
  have hright : n.memory.size = 65536 := h.core.memory.right.size
  have hbelow : ∀ k < 32768, n.memory.get k = m.memory.get k := h.core.memory.below
  rw [Machine.numeric, Machine.numeric]
  cases haddress : numericAddress name with
  | error e => rfl
  | ok a =>
    obtain ⟨i, rfl⟩ := exists_wordStart haddress
    have hlimit := Machine.wordStart_lt_limit i
    have hle := Machine.wordStart_le i
    change n.memory.readWord _ = m.memory.readWord _
    rw [Memory.readWord_natCast hlimit (by omega), Memory.readWord_natCast hlimit (by omega),
      hbelow _ (by omega), hbelow _ (by omega)]

theorem string_eq (name : Text) : n.string name = m.string name := by
  have hleft : m.memory.size = 65536 := h.core.memory.left.size
  have hright : n.memory.size = 65536 := h.core.memory.right.size
  have hbelow : ∀ k < 32768, n.memory.get k = m.memory.get k := h.core.memory.below
  rw [Machine.string, Machine.string]
  cases haddress : stringAddress name with
  | error e => rfl
  | ok a =>
    obtain ⟨i, rfl⟩ := exists_blockStart haddress
    have hi := Machine.blockStart_lt i
    have hread (k : Machine) := k.memory.readString_natCast (Machine.blockStart i) 127 0 (by decide)
    have hslice : n.memory.slice (Machine.blockStart i) 127 = m.memory.slice (Machine.blockStart i) 127 :=
      Bank.slice_congr fun k _ hk => hbelow k (by omega)
    refine (hread n).trans (Eq.trans ?_ (hread m).symm)
    rw [Memory.between_inside (by omega), Memory.between_inside (by omega), hslice]

/-- A label stands at the same place in both programs, as its colon is no newline. -/
theorem label_eq (label : Text) : n.labelAddress label = m.labelAddress label := by
  have hleft := Machine.loaded_of_ends h.core.memory.left h.core.left
  have hright := Machine.loaded_of_ends h.core.memory.right h.core.right
  rw [Machine.labelAddress_eq hleft, Machine.labelAddress_eq hright,
    firstPlace_concat (Label.mark_ne_nil label) (Label.getLast?_mark label)]

theorem keyword_eq (k : Keyword) : k.value n = k.value m := by
  have hclock : n.clock = m.clock := by
    obtain ⟨core, printed, logged, -, rfl⟩ := h
    rfl
  cases k with
  | ramStart => rw [Keyword.value, Keyword.value, setting_eq h (by decide)]
  | ink => rw [Keyword.value, Keyword.value, setting_eq h (by decide)]
  | timer => rw [Keyword.value, Keyword.value, hclock]
  | progStart | variableStart | version => rfl

end Values

/-- Both sides store the same bytes in front of the program. -/
theorem steady_write {x : Run Memory Unit} {i : Nat} {bytes : List UInt8}
    (hx : ∀ memory : Memory, memory.size = 65536 → x.run memory = (.ok (), memory.write i bytes))
    (hbelow : i + bytes.length ≤ 32768) :
    Steady (Alongside (Unended p t)) (Machine.onMemory x) := by
  rintro m n ⟨core, printed, logged, hcore, rfl⟩
  have hleft := hx m.memory hcore.memory.left.size
  have hright := hx core.memory hcore.memory.right.size
  have hright' : x.run (m.withCore core printed logged).memory = (.ok (), core.memory.write i bytes) :=
    hright
  simp only [Machine.onMemory, Run.run_onPart, hleft, hright', true_and]
  refine ⟨{ core with memory := core.memory.write i bytes }, printed, logged, ?_, rfl⟩
  exact {
    memory := hcore.memory.write hbelow
    left := hcore.left
    right := hcore.right
    control := hcore.control
    input := hcore.input
    typed := hcore.typed
    counter := by
      have hsize : Memory.searchStart (m.memory.write i bytes) m.control.counter =
          m.memory.searchStart m.control.counter := by
        rw [Memory.searchStart, Memory.searchStart, Bank.size_write]
      exact hsize ▸ hcore.counter }

theorem steady_setNumeric (name : Text) (v : Int) :
    Steady (Alongside (Unended p t)) (Machine.setNumeric name v) := by
  apply (Machine.steady_report _ _ _).bind
  intro _
  cases haddress : numericAddress name with
  | error e => exact .throw e
  | ok a =>
    obtain ⟨i, rfl⟩ := exists_wordStart haddress
    have hle := Machine.wordStart_le i
    have hi : Machine.wordStart i + 1 < 32768 := by omega
    exact steady_write
      (fun memory hsize => Memory.run_writeWord_natCast (Machine.wordStart_lt_limit i) (by omega) _) hi

theorem steady_setString (name text : Text) :
    Steady (Alongside (Unended p t)) (Machine.setString name text) := by
  cases haddress : stringAddress name with
  | error e =>
    rw [Machine.setString, haddress]
    exact .throw e
  | ok a =>
    obtain ⟨i, rfl⟩ := exists_blockStart haddress
    have hi := Machine.blockStart_lt i
    have hlength := length_storedBytes_le text
    rw [Machine.setString, haddress]
    change Steady (Alongside (Unended p t))
      (Machine.onMemory (modify (Memory.writeString · (Machine.blockStart i) text stringLimit)))
    apply @steady_write p t _ (Machine.blockStart i) (storedBytes text) _ (by omega)
    intro memory hsize
    have hfit : Machine.blockStart i + 127 ≤ memory.size := by omega
    have hstore : memory.writeString (Machine.blockStart i) text stringLimit =
        memory.write (Machine.blockStart i) (storedBytes text) := Memory.writeString_inside hfit
    rw [Run.run_modify, hstore]

theorem likeness : Likeness (Unended p t) where
  numeric := numeric_eq
  string := string_eq
  keyword := keyword_eq
  label := label_eq
  setNumeric := steady_setNumeric
  setString := steady_setString
  course {c d} h := ⟨c.control.lastIf, c.control.pending, h.control⟩
  steer {c d} h s := { h with control := by rw [h.control] }

theorem sameCourse : SameCourse (Unended p t) where
  control h := h.control
  decide h lastIf pending := { h with control := by rw [h.control] }

theorem sameInput : SameInput (Unended p t) Blind where
  input h := h.input
  typed h := h.typed
  take h line rest hlines := { h with
    input := rfl
    typed := fun l hl => h.typed l (by rw [hlines]; exact List.mem_cons_of_mem _ hl) }

theorem needs_of_blind (ht : Memory.newline ∉ t) (hp : p.getLast? = some Memory.newline)
    {tokens : List Token} (hblind : Blind tokens) :
    ∀ c ∈ Command.commandOf? tokens, c.Needs (Unended p t) := by
  intro c hc
  have hc := hblind c hc
  cases c with
  | gosub =>
    intro c d h
    rw [h.control]
    exact h.memory.nextLine_of_start ht hp h.counter
  | ifThen | elseThen => exact sameCourse
  | includeFile | load | save | peek | poke | peekInt | pokeInt | readData => cases hc
  | _ => trivial

theorem steady_hooks (ht : Memory.newline ∉ t) (hp : p.getLast? = some Memory.newline) :
    Debugger.hooks.Steady (Alongside (Unended p t)) :=
  Debugger.steady_hooks likeness sameInput fun _ hblind => needs_of_blind ht hp hblind

end Unended
end BasicMachine
