import BasicMachine.Proofs.MemorySize
import BasicMachine.Proofs.ProgramRun

/-! Jumps to labels. A label is looked for as bytes, with its colon, in the whole text of the program. So a
jump goes to the first place where these bytes stand, and that is the line that defines the label just
when no line in front of it has them anywhere. -/
namespace BasicMachine

/-- Where the bytes of `mark` first stand in a text. -/
def firstPlace (mark : List UInt8) : List UInt8 → Option Nat
  | [] => none
  | b :: rest =>
    if mark.isPrefixOf (b :: rest) then some 0 else (firstPlace mark rest).map (· + 1)

section FirstPlace

variable {mark : List UInt8}

theorem firstPlace_lt {text : List UInt8} {k : Nat} (h : firstPlace mark text = some k) :
    k < text.length := by
  induction text generalizing k with
  | nil => cases h
  | cons b rest ih =>
    rw [firstPlace] at h
    split at h
    · cases h
      exact Nat.zero_lt_succ _
    · obtain ⟨j, hj, rfl⟩ := Option.map_eq_some_iff.mp h
      exact Nat.succ_lt_succ (ih hj)

theorem firstPlace_of_short {text : List UInt8} (h : text.length < mark.length) :
    firstPlace mark text = none := by
  induction text with
  | nil => rfl
  | cons b rest ih =>
    have hno : ¬mark.isPrefixOf (b :: rest) = true := by
      intro hmark
      have hle := (List.isPrefixOf_iff_prefix.mp hmark).length_le
      omega
    rw [firstPlace, if_neg hno, ih (by simp at h; omega)]
    rfl

variable (hmark : mark ≠ [])
include hmark

theorem firstPlace_eq_none_iff (text : List UInt8) : firstPlace mark text = none ↔ ¬mark <:+: text := by
  induction text with
  | nil => simp [firstPlace, hmark]
  | cons b rest ih =>
    rw [firstPlace, List.infix_cons_iff, ← List.isPrefixOf_iff_prefix]
    split
    · next h => simp [h]
    · next h => simp [h, ih]

/-- Bytes with another beginning do not matter in front of the mark. -/
theorem firstPlace_behind {lead : List UInt8} (h : ∀ b ∈ mark.head?, b ∉ lead) (trail : List UInt8) :
    firstPlace mark (lead ++ (mark ++ trail)) = some lead.length := by
  obtain ⟨c, rest, rfl⟩ := List.exists_cons_of_ne_nil hmark
  induction lead with
  | nil =>
    have hfirst : (c :: rest).isPrefixOf (c :: (rest ++ trail)) = true :=
      List.isPrefixOf_iff_prefix.mpr (List.prefix_append (c :: rest) trail)
    rw [List.nil_append, List.cons_append, firstPlace, if_pos hfirst]
    rfl
  | cons b lead ih =>
    have hc : c ∉ b :: lead := h c rfl
    have hno : ¬(c :: rest).isPrefixOf (b :: (lead ++ (c :: rest ++ trail))) = true := by
      intro hprefix
      have hhead := (List.cons_prefix_cons.mp (List.isPrefixOf_iff_prefix.mp hprefix)).1
      exact hc (hhead ▸ List.mem_cons_self)
    rw [List.cons_append, firstPlace, if_neg hno, ih]
    · rfl
    · rintro d ⟨⟩ hd
      exact hc (List.mem_cons_of_mem b hd)

variable (hline : Memory.newline ∉ mark)
include hline

omit hmark in
theorem isPrefixOf_append_newline (line rest : List UInt8) :
    mark.isPrefixOf (line ++ Memory.newline :: rest) = mark.isPrefixOf line := by
  induction mark generalizing line with
  | nil => rfl
  | cons c mark ih =>
    obtain ⟨hc, hmore⟩ := not_or.mp (List.mem_cons.not.mp hline)
    cases line with
    | nil => simp [List.isPrefixOf, Ne.symm hc]
    | cons d line =>
      rw [List.cons_append, List.isPrefixOf, List.isPrefixOf, ih hmore]

/-- A mark without a newline stands in a line or behind it, but not across its end. -/
theorem firstPlace_append_newline (line rest : List UInt8) :
    firstPlace mark (line ++ Memory.newline :: rest) =
      (firstPlace mark line).or ((firstPlace mark rest).map (· + (line.length + 1))) := by
  induction line with
  | nil =>
    have hno : ¬mark.isPrefixOf ([] ++ Memory.newline :: rest) = true := by
      rw [isPrefixOf_append_newline hline]
      cases mark with
      | nil => exact absurd rfl hmark
      | cons c mark => simp
    rw [List.nil_append] at hno ⊢
    exact if_neg hno
  | cons b line ih =>
    rw [List.cons_append, firstPlace, firstPlace, ← List.cons_append, isPrefixOf_append_newline hline, ih]
    split
    · rfl
    · cases firstPlace mark line with
      | some k => rfl
      | none =>
        cases firstPlace mark rest with
        | none => rfl
        | some k => rfl

end FirstPlace

/-- The lines of a program, and what stands behind the last newline. -/
def linesOf (program : List UInt8) : List (List UInt8) := program.splitOn Memory.newline

theorem linesOf_of_not_mem {line : List UInt8} (h : Memory.newline ∉ line) : linesOf line = [line] := by
  have hsplit := @List.splitOn_intercalate _ [line] _ _ Memory.newline (by simpa using h) (by simp)
  simpa [linesOf] using hsplit

theorem linesOf_append {line : List UInt8} (h : Memory.newline ∉ line) (rest : List UInt8) :
    linesOf (line ++ Memory.newline :: rest) = line :: linesOf rest := by
  rw [linesOf, List.splitOn_append_cons_self, ← linesOf, linesOf_of_not_mem h]
  rfl

/-- A program is a single line, or a line and a program behind it. -/
theorem program_cases (program : List UInt8) :
    Memory.newline ∉ program ∨ ∃ line rest, Memory.newline ∉ line ∧ rest.length < program.length ∧
      program = line ++ Memory.newline :: rest := by
  by_cases h : Memory.newline ∈ program
  · obtain ⟨line, rest, rfl, hline⟩ := List.eq_append_cons_of_mem h
    exact .inr ⟨line, rest, hline, by simp; omega, rfl⟩
  · exact .inl h

namespace Label

def mark (label : Text) : List UInt8 := CodePage.encode (label ++ [':'])

/-- But for blanks the line is the label with its colon. -/
def Defines (label : Text) (line : List UInt8) : Prop := strip (CodePage.decode line) = label ++ [':']

instance (label : Text) (line : List UInt8) : Decidable (Defines label line) :=
  inferInstanceAs (Decidable (_ = _))

def blanks (line : List UInt8) : List UInt8 := line.takeWhile fun b => isBlank (CodePage.decodeByte b)

/-- Where the first line that defines the label has its first character. -/
def definedAt (label : Text) : List (List UInt8) → Option Nat
  | [] => none
  | line :: rest =>
    if Defines label line then some (blanks line).length
    else (definedAt label rest).map (· + (line.length + 1))

/-- No line in front of the definition has the label with its colon in it. -/
def Unmentioned (label : Text) (lines : List (List UInt8)) : Prop :=
  ∀ line ∈ lines.takeWhile fun line => !decide (Defines label line), ¬mark label <:+: line

/-- A label of letters. -/
structure Lettered (label : Text) : Prop where
  long : 2 ≤ label.length
  letters : ∀ c ∈ label, c.isAlpha = true

theorem encodeChar?_ascii {c : Char} (h : c.toNat < 128) :
    CodePage.encodeChar? c = some c.toNat.toUInt8 := by
  rw [CodePage.encodeChar?, if_pos h]

theorem toNat_toUInt8 {c : Char} (h : c.toNat < 128) : c.toNat.toUInt8.toNat = c.toNat := by
  have hmod : c.toNat % 256 = c.toNat := by omega
  simpa using hmod

theorem decodeByte_ascii {c : Char} (h : c.toNat < 128) :
    CodePage.decodeByte c.toNat.toUInt8 = c := by
  rw [CodePage.decodeByte, toNat_toUInt8 h, if_pos h, Char.ofNat_toNat]

theorem mark_ne_nil (label : Text) : mark label ≠ [] := by
  simp [mark, CodePage.encode]

section Lettered

variable {label : Text} (hlabel : Lettered label)
include hlabel

theorem newline_not_mem_mark : Memory.newline ∉ mark label := by
  intro hmem
  obtain ⟨c, hc, hbyte⟩ := List.mem_map.mp hmem
  have hrange : 58 ≤ c.toNat ∧ c.toNat < 128 := by
    rcases List.mem_append.mp hc with hletter | hcolon
    · have := isAlpha_iff.mp (hlabel.letters c hletter)
      omega
    · rw [List.mem_singleton.mp hcolon]
      decide
  rw [encodeChar?_ascii hrange.2, Option.getD_some] at hbyte
  have hnat := congrArg UInt8.toNat hbyte
  rw [toNat_toUInt8 hrange.2] at hnat
  have hnewline : Memory.newline.toNat = 10 := rfl
  omega

theorem head_mark_not_mem_blanks (line : List UInt8) : ∀ b ∈ (mark label).head?, b ∉ blanks line := by
  obtain ⟨long, letters⟩ := hlabel
  cases label with
  | nil => simp at long
  | cons c rest =>
    have hrange := isAlpha_iff.mp (letters c List.mem_cons_self)
    have hascii : c.toNat < 128 := by omega
    rintro b ⟨⟩ hb
    have hblank := List.mem_takeWhile_imp hb
    dsimp only at hblank
    rw [encodeChar?_ascii hascii, Option.getD_some, decodeByte_ascii hascii,
      isBlank_of_visible (by omega) (by omega)] at hblank
    cases hblank

omit hlabel in
theorem Defines.eq_append {line : List UInt8} (h : Defines label line) :
    ∃ trail, line = blanks line ++ (mark label ++ trail) := by
  have hsolid : line.dropWhile (fun b => isBlank (CodePage.decodeByte b)) =
      CodePage.encode ((CodePage.decode line).dropWhile isBlank) := by
    rw [CodePage.decode, List.dropWhile_map, ← CodePage.decode, CodePage.encode_decode]
    rfl
  have hback := @List.takeWhile_append_dropWhile _ isBlank ((CodePage.decode line).dropWhile isBlank).reverse
  have hbody : (((CodePage.decode line).dropWhile isBlank).reverse.dropWhile isBlank).reverse =
      label ++ [':'] := h
  have hfront : (CodePage.decode line).dropWhile isBlank = (label ++ [':']) ++
      (((CodePage.decode line).dropWhile isBlank).reverse.takeWhile isBlank).reverse := by
    rw [← hbody, ← List.reverse_append, hback, List.reverse_reverse]
  refine ⟨CodePage.encode
    (((CodePage.decode line).dropWhile isBlank).reverse.takeWhile isBlank).reverse, ?_⟩
  rw [mark, CodePage.encode, CodePage.encode, ← List.map_append, ← hfront, ← CodePage.encode, ← hsolid]
  exact List.takeWhile_append_dropWhile.symm

theorem firstPlace_of_defines {line : List UInt8} (h : Defines label line) :
    firstPlace (mark label) line = some (blanks line).length := by
  obtain ⟨trail, hline⟩ := h.eq_append
  have hplace := firstPlace_behind (mark_ne_nil label) (head_mark_not_mem_blanks hlabel line) trail
  rwa [← hline] at hplace

/-- The label first stands where it is defined just when it is not mentioned before. -/
theorem firstPlace_eq_definedAt_iff (program : List UInt8) :
    firstPlace (mark label) program = definedAt label (linesOf program) ↔
      Unmentioned label (linesOf program) := by
  have hne := mark_ne_nil label
  have hnewline := newline_not_mem_mark hlabel
  induction hlength : program.length using Nat.strong_induction_on generalizing program with
  | _ n ih =>
    rcases program_cases program with hlast | ⟨line, rest, hline, hshort, rfl⟩
    · rw [linesOf_of_not_mem hlast, definedAt, Unmentioned, List.takeWhile_cons]
      by_cases hdefines : Defines label program
      · simp [hdefines, firstPlace_of_defines hlabel hdefines]
      · simp [hdefines, definedAt, firstPlace_eq_none_iff hne]
    · have hrest : firstPlace (mark label) rest = definedAt label (linesOf rest) ↔
          Unmentioned label (linesOf rest) := ih rest.length (by omega) rest rfl
      rw [linesOf_append hline, definedAt, Unmentioned, List.takeWhile_cons,
        firstPlace_append_newline hne hnewline]
      by_cases hdefines : Defines label line
      · simp [hdefines, firstPlace_of_defines hlabel hdefines]
      by_cases hmention : mark label <:+: line
      · -- The mention stands in this line, and the definition can only come behind it.
        obtain ⟨k, hk⟩ := Option.ne_none_iff_exists'.mp
          (mt (firstPlace_eq_none_iff hne line).mp (not_not.mpr hmention))
        have hlt := firstPlace_lt hk
        have hother : some k ≠ (definedAt label (linesOf rest)).map (· + (line.length + 1)) := by
          intro heq
          obtain ⟨j, -, hj⟩ := Option.map_eq_some_iff.mp heq.symm
          omega
        simp [hdefines, hk, hother, hmention]
      · -- Neither stands in this line, and the places behind it are moved by its length.
        have hnone := (firstPlace_eq_none_iff hne line).mpr hmention
        have hinjective : Function.Injective fun k : Nat => k + (line.length + 1) := by
          intro j k hjk
          dsimp only at hjk
          omega
        rw [hnone, Option.none_or, if_neg hdefines, (Option.map_injective hinjective).eq_iff, hrest]
        simp [hdefines, hmention, Unmentioned]

end Lettered
end Label

theorem Memory.holdsAt_eq_isPrefixOf (m : Memory) (mark : List UInt8) (a : Nat) {n : Nat}
    (h : mark.length ≤ n) : m.holdsAt a mark = mark.isPrefixOf (m.slice a n) := by
  induction mark generalizing a n with
  | nil => rfl
  | cons b mark ih =>
    obtain ⟨n, rfl⟩ : ∃ k, n = k + 1 := ⟨n - 1, by simp at h; omega⟩
    have hslice : m.slice a (n + 1) = m.get a :: m.slice (a + 1) n := rfl
    rw [holdsAt, ih (a + 1) (by simpa using h), hslice, List.isPrefixOf, BEq.comm]

/-- The search through the memory finds the first place in the text that stands there. -/
theorem Memory.search_eq_firstPlace {m : Memory} {mark : List UInt8} (hmark : mark ≠ []) (a : Nat)
    (n : Nat) :
    search (fun i => m.holdsAt i mark) a (n + 1 - mark.length) =
      (firstPlace mark (m.slice a n)).map (a + ·) := by
  have hpos := List.length_pos_iff.mpr hmark
  induction n generalizing a with
  | zero =>
    rw [show 0 + 1 - mark.length = 0 by omega]
    rfl
  | succ n ih =>
    by_cases hshort : n + 1 < mark.length
    · rw [show n + 1 + 1 - mark.length = 0 by omega,
        firstPlace_of_short (by rwa [Bank.length_slice])]
      rfl
    · have hslice : m.slice a (n + 1) = m.get a :: m.slice (a + 1) n := rfl
      rw [show n + 1 + 1 - mark.length = n + 1 - mark.length + 1 by omega, search,
        holdsAt_eq_isPrefixOf m mark a (Nat.not_lt.mp hshort), ih, hslice, firstPlace]
      split
      · rfl
      · rw [Option.map_map]
        congr 1
        funext k
        simp only [Function.comp]
        omega

/-- A text is found at its first place between two addresses. -/
theorem Memory.findString_natCast {m : Memory} {t : Text} (ht : t ≠ []) {a n : Nat}
    (h : a + n ≤ m.size) :
    m.findString t a ((a + n : Nat) : Int) = match firstPlace (CodePage.encode t) (m.slice a n) with
      | some k => .ok (a + k)
      | none => .error (.stringNotFound t) := by
  have hmark : CodePage.encode t ≠ [] := by simpa [CodePage.encode] using ht
  have hfirst : (if (a : Int) < 0 then bound m.size a else (a : Int).toNat) = a := by
    rw [if_neg (by omega), Int.toNat_natCast]
  have hcount : a + n + 1 - (CodePage.encode t).length - a = n + 1 - (CodePage.encode t).length := by
    omega
  simp only [findString, hfirst]
  rw [bound_natCast, Nat.min_eq_left h, hcount, search_eq_firstPlace hmark]
  cases firstPlace (CodePage.encode t) (m.slice a n) with
  | none => rfl
  | some k => rfl

namespace Machine

/-- The program stands in its place, and its size is known. -/
structure Loaded (m : Machine) (program : List UInt8) : Prop where
  size : m.programSize = program.length
  fits : programStart.toNat + program.length ≤ m.memory.size
  bytes : m.memory.slice programStart.toNat program.length = program

/-- A program of any length is loaded; one that is too long makes the memory longer. -/
theorem loaded_withProgram {m : Machine} (h : programStart.toNat ≤ m.memory.size) (program : List UInt8) :
    Loaded (m.withProgram program) program := by
  have hstart : programStart = (programStart.toNat : Int) := rfl
  have hmemory : (m.withProgram program).memory = { m.memory.write programStart.toNat program with
      size := max m.memory.size (programStart.toNat + program.length) } := by
    rw [withProgram, hstart, Memory.writeData_natCast h]
    rfl
  constructor
  case size => simp [programSize, setting, withProgram, lookup_setNamed]
  case fits =>
    rw [hmemory]
    exact Nat.le_max_right _ _
  case bytes =>
    rw [hmemory]
    exact Bank.slice_write_self m.memory programStart.toNat program

/-- A label is the first place where its bytes stand in the program. -/
theorem labelAddress_eq {m : Machine} {program : List UInt8} (h : Loaded m program) (label : Text) :
    m.labelAddress label = match firstPlace (Label.mark label) program with
      | some k => .ok (programStart.toNat + k)
      | none => .error (.undefinedLabel label) := by
  have hstart : programStart = (programStart.toNat : Int) := rfl
  have hlast : programStart + m.programSize = ((programStart.toNat + program.length : Nat) : Int) := by
    rw [h.size, Int.natCast_add, ← hstart]
  have hfind := Memory.findString_natCast (m := m.memory) (t := label ++ [':']) (by simp) h.fits
  rw [h.bytes, ← hlast, ← hstart, ← Label.mark] at hfind
  rw [labelAddress, hfind]
  cases firstPlace (Label.mark label) program with
  | none => rfl
  | some k => rfl

def gotoLabel (label : Text) : Text := "GOTO ".toList ++ label

theorem parse_gotoLabel {label : Text} (h : Label.Lettered label) :
    Token.parse (gotoLabel label) = .ok [.word "GOTO".toList, .word label] := by
  have hcanonical : ∀ t ∈ [Token.word "GOTO".toList, .word label], Token.Canonical t := by
    simp only [List.forall_mem_cons]
    exact ⟨.word _ (by decide) (List.all_eq_true.mp (by decide)), .word _ h.long h.letters, by simp⟩
  have hspaced := Token.Spaced.more "GOTO".toList 0 (.one label)
  have hsplit := @Token.splitLine_spaced _ hcanonical (by rintro t ⟨⟩; decide) [] _ [] (by simp) (by simp)
    hspaced
  rw [List.append_nil] at hsplit
  exact Token.parse_of_splitLine hcanonical hsplit

/-- The jump to a label goes to a place of the program, or fails if it is to go nowhere. Nothing else
changes but what is logged. -/
def JumpsTo (m : Machine) (label : Text) : Option Nat → Prop
  | some k => ∃ c, (runLine (gotoLabel label)).run m = (.ok (), { m with
      control := { m.control with next := programStart + k }
      console := c })
  | none => ∃ c, (runLine (gotoLabel label)).run m =
      (.error (.undefinedLabel label), { m with console := c })

theorem JumpsTo.unique {m : Machine} {label : Text} {i j : Option Nat} (hi : JumpsTo m label i)
    (hj : JumpsTo m label j) : i = j := by
  cases i with
  | none =>
    cases j with
    | none => rfl
    | some l =>
      obtain ⟨c, hc⟩ := hi
      obtain ⟨d, hd⟩ := hj
      simp [hc] at hd
  | some k =>
    obtain ⟨c, hc⟩ := hi
    cases j with
    | none =>
      obtain ⟨d, hd⟩ := hj
      simp [hc] at hd
    | some l =>
      obtain ⟨d, hd⟩ := hj
      rw [hc] at hd
      have hnext := congrArg (fun r => r.2.control.next) hd
      simp only [Int.add_right_inj, Int.natCast_inj] at hnext
      rw [hnext]

/-- A jump goes where its argument points, and fails as its argument does. -/
theorem run_gotoLabel {text : Text} {token : Token}
    (hparse : Token.parse (gotoLabel text) = .ok [.word "GOTO".toList, token]) (m : Machine) :
    ∃ c, (∀ a, token.toAddress { m with console := c } = .ok a → (runLine (gotoLabel text)).run m =
        (.ok (), { m with control := { m.control with next := a }, console := c })) ∧
      ∀ e, token.toAddress { m with console := c } = .error e →
        (runLine (gotoLabel text)).run m = (.error e, { m with console := c }) := by
  have hname : Command.ofName? (upper "GOTO".toList) = some .goto := by decide +kernel
  obtain ⟨c, hline⟩ := run_commandLine hparse hname m
  have hfirst : Arguments.Has [.word "GOTO".toList, token] 1 token := ⟨Int.one_nonneg, by decide, rfl⟩
  have hnext := Call.run_nextAs (m := { m with console := c }) Token.toAddress hfirst
  refine ⟨c, fun a ha => ?_, fun e he => ?_⟩
  · rw [ha] at hnext
    exact hline _ _ (Run.run_bind_ok hnext)
  · rw [he] at hnext
    exact hline _ _ (Run.run_bind_error hnext)

/-- A jump goes to the first place where the label stands with its colon. -/
theorem jumpsTo_firstPlace {m : Machine} {program : List UInt8} {label : Text}
    (hloaded : Loaded m program) (hlabel : Label.Lettered label)
    (hkeyword : Keyword.ofName? label = none) :
    JumpsTo m label (firstPlace (Label.mark label) program) := by
  obtain ⟨c, hok, herror⟩ := run_gotoLabel (parse_gotoLabel hlabel) m
  have hloaded' : Loaded { m with console := c } program := ⟨hloaded.size, hloaded.fits, hloaded.bytes⟩
  have hread : Token.toAddress { m with console := c } (.word label) =
      match firstPlace (Label.mark label) program with
      | some k => .ok (programStart + k)
      | none => .error (.undefinedLabel label) := by
    simp only [Token.toAddress, hkeyword, labelAddress_eq hloaded' label]
    cases firstPlace (Label.mark label) program with
    | none => rfl
    | some k => rfl
  cases hplace : firstPlace (Label.mark label) program with
  | none =>
    rw [hplace] at hread
    exact ⟨c, herror _ hread⟩
  | some k =>
    rw [hplace] at hread
    exact ⟨c, hok _ hread⟩

/-- A jump goes to the line that defines the label, and fails if there is none, just when no line in front
of the definition has the label with its colon in it. In any case it goes to the first place where these
bytes stand in the program. -/
theorem goto_lands_iff_unmentioned (m : Machine) (program : List UInt8) (label : Text)
    (hloaded : Loaded m program) (hlabel : Label.Lettered label)
    (hkeyword : Keyword.ofName? label = none) :
    JumpsTo m label (firstPlace (Label.mark label) program) ∧
      (JumpsTo m label (Label.definedAt label (linesOf program)) ↔
        Label.Unmentioned label (linesOf program)) := by
  have hjump := jumpsTo_firstPlace hloaded hlabel hkeyword
  refine ⟨hjump, ?_⟩
  rw [← Label.firstPlace_eq_definedAt_iff hlabel]
  constructor
  · intro hdefined
    exact hjump.unique hdefined
  · intro hplace
    rwa [← hplace]

theorem lettered_loop : Label.Lettered "LOOP".toList :=
  ⟨by decide, List.all_eq_true.mp (by decide)⟩

/-- A program in which the label is defined behind a comment that begins like it. -/
def loopText : List UInt8 := CodePage.encode "REM LOOPING\n  LOOP: \nGOTO LOOP\n".toList

theorem goto_lands_behind_comment :
    Loaded (withProgram {} loopText) loopText ∧ Label.Lettered "LOOP".toList ∧
      Keyword.ofName? "LOOP".toList = none ∧
      JumpsTo (withProgram {} loopText) "LOOP".toList (some 14) ∧
      Label.Unmentioned "LOOP".toList (linesOf loopText) ∧
      JumpsTo (withProgram {} loopText) "LOOP".toList
        (Label.definedAt "LOOP".toList (linesOf loopText)) := by
  have hloaded : Loaded (withProgram {} loopText) loopText := loaded_withProgram (by decide) loopText
  have hkeyword : Keyword.ofName? "LOOP".toList = none := by decide +kernel
  have hplace : firstPlace (Label.mark "LOOP".toList) loopText = some 14 := by decide +kernel
  have hunmentioned : Label.Unmentioned "LOOP".toList (linesOf loopText) := by
    unfold Label.Unmentioned
    decide +kernel
  obtain ⟨hjump, hdefined⟩ := goto_lands_iff_unmentioned _ _ _ hloaded lettered_loop hkeyword
  rw [hplace] at hjump
  exact ⟨hloaded, lettered_loop, hkeyword, hjump, hunmentioned, hdefined.mpr hunmentioned⟩

/-- A program that names the label with its colon in a comment. -/
def remarkText : List UInt8 := CodePage.encode "REM LOOP:\nLOOP:\n".toList

/-- The jump goes into the comment and not to the line that defines the label. -/
theorem goto_lands_in_comment :
    Loaded (withProgram {} remarkText) remarkText ∧
      Label.definedAt "LOOP".toList (linesOf remarkText) = some 10 ∧
      JumpsTo (withProgram {} remarkText) "LOOP".toList (some 4) ∧
      ¬JumpsTo (withProgram {} remarkText) "LOOP".toList (some 10) := by
  have hloaded : Loaded (withProgram {} remarkText) remarkText := loaded_withProgram (by decide) remarkText
  have hplace : firstPlace (Label.mark "LOOP".toList) remarkText = some 4 := by decide +kernel
  have hjump := jumpsTo_firstPlace hloaded lettered_loop (by decide +kernel)
  rw [hplace] at hjump
  refine ⟨hloaded, by decide +kernel, hjump, fun hother => ?_⟩
  exact absurd (hjump.unique hother) (by decide)

end Machine
end BasicMachine
