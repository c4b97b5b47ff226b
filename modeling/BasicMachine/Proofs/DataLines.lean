import BasicMachine.Proofs.InkColour
import BasicMachine.Proofs.LineParts
import BasicMachine.Proofs.UnendedProgram

/-! Numbers on data lines. `READ` looks for a label and takes the numbers on the line behind it. The first time it
parses the line, and from then on it keeps the numbers. No read writes outside the variables, so the line and
the numbers that are kept go on saying the same, and the reads can come in any order. -/
namespace BasicMachine

open Token

/-- The words of a text, which are set apart by spaces. -/
def fields (t : Text) : List Text := (t.splitOn ' ').filter (· ≠ [])

def numbersIn (t : Text) : List Nat := (fields t).map (Nat.ofDigitChars 10 · 0)

def NumberLine (t : Text) : Prop := ∀ c ∈ t, c.isDigit = true ∨ c = ' '

instance (t : Text) : Decidable (NumberLine t) :=
  decidable_of_iff (t.all (fun c => c.isDigit || c == ' ') = true) (by simp [NumberLine])

section Fields

/-- A text is a word, or a word and a space with a text behind it. -/
theorem spaceInduction {P : Text → Prop} (word : ∀ w, ' ' ∉ w → P w)
    (more : ∀ w t, ' ' ∉ w → P t → P (w ++ ' ' :: t)) (t : Text) : P t := by
  induction hlength : t.length using Nat.strong_induction_on generalizing t with
  | _ n ih =>
    by_cases hspace : ' ' ∈ t
    · obtain ⟨w, rest, rfl, hw⟩ := List.eq_append_cons_of_mem hspace
      exact more w rest hw (ih rest.length (by simp at hlength; omega) rest rfl)
    · exact word t hspace

theorem fields_append_space (t u : Text) : fields (t ++ ' ' :: u) = fields t ++ fields u := by
  rw [fields, List.splitOn_append_cons_self, List.filter_append]
  rfl

theorem fields_word {w : Text} (h : ' ' ∉ w) : fields w = if w = [] then [] else [w] := by
  have hsplit := @List.splitOn_intercalate _ [w] _ _ ' ' (by simpa using h) (by simp)
  rw [show [' '].intercalate [w] = w by simp] at hsplit
  rw [fields, hsplit]
  by_cases hne : w = []
  · simp [hne]
  · simp [hne]

theorem mem_fields {t f : Text} (h : f ∈ fields t) : f ≠ [] ∧ ' ' ∉ f ∧ f <:+: t := by
  have hword (w : Text) (hw : ' ' ∉ w) (hf : f ∈ fields w) : f ≠ [] ∧ f = w := by
    rw [fields_word hw] at hf
    split at hf
    · cases hf
    · next hne =>
      obtain rfl := List.mem_singleton.mp hf
      exact ⟨hne, rfl⟩
  induction t using spaceInduction with
  | word w hw =>
    obtain ⟨hne, rfl⟩ := hword w hw h
    exact ⟨hne, hw, List.infix_rfl⟩
  | more w t hw ih =>
    rw [fields_append_space, List.mem_append] at h
    rcases h with hfirst | hrest
    · obtain ⟨hne, rfl⟩ := hword w hw hfirst
      exact ⟨hne, hw, (List.prefix_append _ _).isInfix⟩
    · obtain ⟨hne, hspace, hpart⟩ := ih hrest
      have hsuffix : t <:+ w ++ ' ' :: t := (List.suffix_cons ' ' t).trans (List.suffix_append _ _)
      exact ⟨hne, hspace, hpart.trans hsuffix.isInfix⟩

theorem length_fields_le (t : Text) : (fields t).length ≤ t.length := by
  have hword (w : Text) (hw : ' ' ∉ w) : (fields w).length ≤ w.length := by
    rw [fields_word hw]
    split
    · exact Nat.zero_le _
    · next hne => exact List.length_pos_iff.mpr hne
  induction t using spaceInduction with
  | word w hw => exact hword w hw
  | more w t hw ih =>
    have hfirst := hword w hw
    rw [fields_append_space, List.length_append, List.length_append, List.length_cons]
    omega

theorem fields_around {lead trail : Text} (hlead : ∀ c ∈ lead, c = ' ') (htrail : ∀ c ∈ trail, c = ' ')
    (t : Text) : fields (lead ++ t ++ trail) = fields t := by
  have hfront (s u : Text) (hs : ∀ c ∈ s, c = ' ') : fields (s ++ u) = fields u := by
    induction s with
    | nil => rfl
    | cons c s ih =>
      obtain ⟨rfl, hrest⟩ := List.forall_mem_cons.mp hs
      have hspace := fields_append_space [] (s ++ u)
      rw [ih hrest] at hspace
      exact hspace
  rw [List.append_assoc, hfront lead _ hlead]
  cases trail with
  | nil => rw [List.append_nil]
  | cons c trail =>
    obtain ⟨rfl, hrest⟩ := List.forall_mem_cons.mp htrail
    have hempty : fields trail = [] := (congrArg fields (List.append_nil trail)).symm.trans (hfront trail [] hrest)
    rw [fields_append_space, hempty, List.append_nil]

end Fields

theorem eq_append_strip (t : Text) : ∃ lead trail, t = lead ++ strip t ++ trail ∧
    (∀ c ∈ lead, isBlank c = true) ∧ ∀ c ∈ trail, isBlank c = true := by
  refine ⟨t.takeWhile isBlank, ((t.dropWhile isBlank).reverse.takeWhile isBlank).reverse, ?_,
    fun c hc => List.mem_takeWhile_imp hc, fun c hc => ?_⟩
  · rw [strip, trimBoth, List.append_assoc, ← List.reverse_append, List.takeWhile_append_dropWhile,
      List.reverse_reverse, List.takeWhile_append_dropWhile]
  · exact List.mem_takeWhile_imp (List.mem_reverse.mp hc)

namespace NumberLine

theorem append {t u : Text} (h : NumberLine (t ++ u)) : NumberLine t ∧ NumberLine u :=
  ⟨fun c hc => h c (List.mem_append_left u hc), fun c hc => h c (List.mem_append_right t hc)⟩

theorem isDigit_of_word {w : Text} (h : NumberLine w) (hw : ' ' ∉ w) : ∀ c ∈ w, c.isDigit = true := by
  intro c hc
  exact (h c hc).resolve_right fun heq => hw (heq ▸ hc)

theorem eq_space_of_isBlank {c : Char} (h : c.isDigit = true ∨ c = ' ') (hblank : isBlank c = true) :
    c = ' ' := by
  refine h.resolve_left fun hdigit => ?_
  have hrange := isDigit_iff.mp hdigit
  rw [isBlank_of_visible (by omega) (by omega)] at hblank
  cases hblank

theorem fields_strip {t : Text} (h : NumberLine t) : NumberLine (strip t) ∧ fields (strip t) = fields t := by
  obtain ⟨lead, trail, heq, hlead, htrail⟩ := eq_append_strip t
  rw [heq] at h
  obtain ⟨hfront, hback⟩ := h.append
  obtain ⟨hfirst, hbody⟩ := hfront.append
  refine ⟨hbody, ?_⟩
  conv_rhs => rw [heq]
  exact (fields_around (fun c hc => eq_space_of_isBlank (hfirst c hc) (hlead c hc))
    (fun c hc => eq_space_of_isBlank (hback c hc) (htrail c hc)) _).symm

end NumberLine

section Digits

variable {w : Text} (hne : w ≠ []) (hdigits : ∀ c ∈ w, c.isDigit = true)
include hne hdigits

theorem feed_digits (parts : List Text) : feed { parts := parts } w = .ok { parts := parts, word := w } := by
  have halpha (c : Char) (hc : c ∈ w) : isAlphanumeric c = true := by
    rw [isAlphanumeric, isNumeric_of_isDigit (hdigits c hc), Bool.or_true]
  cases w with
  | nil => exact absurd rfl hne
  | cons c w => exact feed_word (halpha c (by simp)) (fun d hd => halpha d (by simp [hd])) parts

/-- Digits with a space behind them are one more part: they do not begin a comment. -/
theorem feed_digits_space (parts : List Text) :
    feed { parts := parts } (w ++ [' ']) = .ok { parts := parts ++ [w] } := by
  rw [feed_append (feed_digits hne hdigits parts)]
  refine feed_space_open hne fun _ hremark => ?_
  obtain ⟨c, rest, rfl⟩ := List.exists_cons_of_ne_nil hne
  have hletter := isAlpha_iff.mp ((remark_letters hremark).2 c (by simp))
  have hdigit := isDigit_iff.mp (hdigits c (by simp))
  omega

theorem Token.decode_digits (hshort : w.length ≤ Text.digitLimit) :
    decode w = .ok (.number ((Nat.ofDigitChars 10 w 0 : Nat) : Int)) := by
  have hread := Text.readInteger?_of_isDigit hne hdigits hshort
  obtain ⟨c, rest, rfl⟩ := List.exists_cons_of_ne_nil hne
  exact decode_of_isDigit (hdigits c (by simp)) hread

end Digits

/-- The splitter finds the words of a text of digits and spaces. -/
theorem NumberLine.splits {t : Text} (h : NumberLine t) (parts : List Text) :
    ∃ s, feed { parts := parts } t = .ok s ∧ s.finish = .ok (parts ++ fields t) := by
  induction t using spaceInduction generalizing parts with
  | word w hw =>
    by_cases hne : w = []
    · subst hne
      exact ⟨_, rfl, by simp [Splitter.finish, fields_word hw]⟩
    · refine ⟨_, feed_digits hne (h.isDigit_of_word hw) parts, ?_⟩
      simp [Splitter.finish, fields_word hw, hne]
  | more w t hw ih =>
    obtain ⟨hword, hrest⟩ := h.append
    have ht : NumberLine t := fun c hc => hrest c (List.mem_cons_of_mem _ hc)
    rw [fields_append_space, List.append_cons w ' ' t]
    by_cases hne : w = []
    · subst hne
      obtain ⟨s, hs, hfinish⟩ := ih ht parts
      exact ⟨s, (feed_append (feed_spaces parts 1) t).trans hs, by simpa [fields_word hw] using hfinish⟩
    · obtain ⟨s, hs, hfinish⟩ := ih ht (parts ++ [w])
      refine ⟨s, (feed_append (feed_digits_space hne (hword.isDigit_of_word hw) parts) t).trans hs, ?_⟩
      rw [fields_word hw, if_neg hne, ← List.append_assoc]
      exact hfinish

namespace Token

theorem decodeAll_of_forall {parts : List Text} {f : Text → Token}
    (h : ∀ part ∈ parts, decode part = .ok (f part)) : decodeAll parts = .ok (parts.map f) := by
  induction parts with
  | nil => rfl
  | cons part parts ih =>
    obtain ⟨hfirst, hrest⟩ := List.forall_mem_cons.mp h
    rw [decodeAll, hfirst, ih hrest]
    rfl

/-- A text of digits and spaces is parsed into its numbers. -/
theorem parse_numberLine {t : Text} (h : NumberLine t) (hshort : t.length ≤ Text.digitLimit) :
    parse t = .ok ((numbersIn t).map fun n : Nat => .number n) := by
  have hsplit : splitLine t = .ok (fields t) := by
    obtain ⟨hstrip, hfields⟩ := h.fields_strip
    obtain ⟨s, hs, hfinish⟩ := hstrip.splits []
    rw [splitLine, hs, ← hfields]
    exact hfinish
  have hdecode : decodeAll (fields t) = .ok ((numbersIn t).map fun n : Nat => .number n) := by
    rw [numbersIn, List.map_map]
    refine decodeAll_of_forall fun f hf => ?_
    obtain ⟨hne, hspace, hpart⟩ := mem_fields hf
    have hline : NumberLine f := fun c hc => h c (hpart.subset hc)
    exact decode_digits hne (hline.isDigit_of_word hspace) (hpart.length_le.trans hshort)
  rw [parse, hsplit]
  change decodeAll (fields t) >>= _ = _
  rw [hdecode]
  cases numbersIn t with
  | nil => rfl
  | cons n rest => rfl

end Token

theorem Memory.hasLine_of_slice {m : Memory} {a : Nat} {front line back bytes : List UInt8}
    (hbytes : bytes = front ++ line ++ newline :: back) (hfits : a + bytes.length ≤ m.size)
    (hslice : m.slice a bytes.length = bytes) : HasLine m (a + front.length) line := by
  subst hbytes
  rw [List.length_append, List.length_append, List.length_cons] at hfits hslice
  rw [Bank.slice_add, Bank.slice_add] at hslice
  obtain ⟨hlines, hbehind⟩ := List.append_inj hslice (by simp)
  constructor
  case inside => omega
  case bytes => exact (List.append_inj hlines (by simp)).2
  case ends =>
    rw [Nat.add_assoc]
    exact (List.cons.inj hbehind).1

theorem CodePage.eq_newline_of_encode {c : Char} (h : (encodeChar? c).getD 63 = Memory.newline) :
    c = '\n' := by
  have hnewline : Memory.newline.toNat = 10 := rfl
  by_cases hascii : c.toNat < 128
  · rw [Label.encodeChar?_ascii hascii, Option.getD_some] at h
    have hnat := congrArg UInt8.toNat h
    rw [Label.toNat_toUInt8 hascii] at hnat
    exact Char.toNat_inj.mp hnat
  · rw [encodeChar?, if_neg hascii] at h
    cases hi : upperHalf.idxOf? c.toNat with
    | none =>
      rw [hi] at h
      exact absurd h (by decide)
    | some i =>
      have hlt := (List.idxOf?_eq_some_iff.mp hi).1
      rw [length_upperHalf] at hlt
      rw [hi] at h
      have hnat : (i + 128) % 256 = Memory.newline.toNat := congrArg UInt8.toNat h
      omega

theorem Label.newline_not_mem_mark_of_isLetter {label : Text} (h : ∀ c ∈ label, isLetter c = true) :
    Memory.newline ∉ mark label := by
  intro hmem
  obtain ⟨c, hc, hbyte⟩ := List.mem_map.mp hmem
  obtain rfl := CodePage.eq_newline_of_encode hbyte
  rcases List.mem_append.mp hc with hletter | hcolon
  · exact absurd (h _ hletter) (by decide)
  · exact absurd hcolon (by decide)

/-- The label first stands on a line in front of one with nothing but digits and spaces, which is not too long to
be read. What else there is on the line of the label does not matter. -/
structure Label.DataLine (label : Text) (program line : List UInt8) : Prop where
  place : ∃ front rest back,
    program = front ++ (mark label ++ rest) ++ Memory.newline :: (line ++ Memory.newline :: back) ∧
      Memory.newline ∉ rest ∧ firstPlace (mark label) program = some front.length
  short : line.length ≤ 255
  numbers : NumberLine (CodePage.decode line)

def itemsOf (line : List UInt8) : List Int := (numbersIn (CodePage.decode line)).map Int.ofNat

theorem Label.DataLine.fits {label : Text} {program line : List UInt8} (h : DataLine label program line) :
    FitsLine line := by
  refine ⟨fun hnewline => ?_, h.short⟩
  have hmem : CodePage.decodeByte Memory.newline ∈ CodePage.decode line := List.mem_map_of_mem hnewline
  exact absurd (h.numbers _ hmem) (by decide)

namespace Command

theorem leadingNumbers_numbers (m : Machine) (numbers : List Nat) :
    leadingNumbers m (numbers.map fun n : Nat => .number n) = .ok (numbers.map Int.ofNat) := by
  induction numbers with
  | nil => rfl
  | cons n numbers ih =>
    change (leadingNumbers m (numbers.map fun n : Nat => .number n) >>= fun rest => .ok ((n : Int) :: rest)) = _
    rw [ih]
    rfl

/-- What `READ` does when it has the data: it takes the index and stores the item in the variable behind it. -/
def pickItem (data : List Int) : Routine := do
  let i ← Call.nextNumeric
  if i ≥ data.length then throw .endOfData
  let k ← Run.ofExcept (BasicMachine.place .noSuchItem data.length i)
  Call.putNumeric (data[k]?.getD 0)

theorem runReadData_eq : runReadData = Call.nextLabel >>= fun found =>
    Call.onMachine (dataBlock found.1 found.2) >>= pickItem := rfl

section PickItem

variable {m : Machine} {ts : List Token} {index : Token} {v : Fin 26} (hindex : Arguments.Has ts 2 index)
    (data : List Int)
include hindex

theorem run_pickItem_missing {i : Int} (hi : index.toNumeric m = .ok i) (hlength : data.length ≤ i) :
    (pickItem data).run ⟨m, ⟨ts, 2⟩⟩ = (.error .endOfData, ⟨m, ⟨ts, 3⟩⟩) := by
  have htake := @Call.run_nextAs m _ _ _ _ Token.toNumeric hindex
  rw [hi] at htake
  rw [pickItem, Call.nextNumeric, Run.run_bind_ok htake, if_pos hlength]
  rfl

theorem run_pickItem_found (hvar : Arguments.Has ts 3 (.numericVar (Machine.numericName v))) {i : Int} {k : Nat}
    (hi : index.toNumeric m = .ok i) (hlength : i < data.length)
    (hk : BasicMachine.place .noSuchItem data.length i = .ok k) :
    (pickItem data).run ⟨m, ⟨ts, 2⟩⟩ =
      (((Machine.setNumeric (Machine.numericName v) (data[k]?.getD 0)).run m).1,
        ⟨((Machine.setNumeric (Machine.numericName v) (data[k]?.getD 0)).run m).2, ⟨ts, 4⟩⟩) := by
  have htake := @Call.run_nextAs m _ _ _ _ Token.toNumeric hindex
  have hname := @Call.run_nextAs m _ _ _ _ (fun _ => Token.toNumericVar) hvar
  rw [hi] at htake
  rw [pickItem, Call.nextNumeric, Run.run_bind_ok htake, if_neg (by omega), hk]
  exact Run.run_bind_ok hname

/-- Whatever the index is, at most the variable is set. -/
theorem machine_pickItem (hvar : Arguments.Has ts 3 (.numericVar (Machine.numericName v))) :
    ((pickItem data).run ⟨m, ⟨ts, 2⟩⟩).2.machine = m ∨ ∃ d,
      ((pickItem data).run ⟨m, ⟨ts, 2⟩⟩).2.machine =
        ((Machine.setNumeric (Machine.numericName v) d).run m).2 := by
  have htake := @Call.run_nextAs m _ _ _ _ Token.toNumeric hindex
  cases hi : index.toNumeric m with
  | error e =>
    rw [hi] at htake
    rw [pickItem, Call.nextNumeric, Run.run_bind_error htake]
    exact .inl rfl
  | ok i =>
    by_cases hlength : i < data.length
    · cases hk : BasicMachine.place .noSuchItem data.length i with
      | ok k =>
        rw [run_pickItem_found hindex data hvar hi hlength hk]
        exact .inr ⟨_, rfl⟩
      | error e =>
        rw [hi] at htake
        rw [pickItem, Call.nextNumeric, Run.run_bind_ok htake, if_neg (by omega), hk]
        exact .inl rfl
    · rw [run_pickItem_missing hindex data hi (by omega)]
      exact .inl rfl

end PickItem
end Command

theorem SameView.sameIn {m n : Machine} (h : SameView m n) (w : Variable) : Machine.SameIn m n w := by
  cases w with
  | numeric i => exact h.numeric _
  | string i => exact h.string _

namespace Machine

theorem OnlyChanges.of_sameView {v : Variable} {m n n' : Machine} (hview : SameView m n)
    (hpalette : n.palette = m.palette) (h : OnlyChanges v n n') : OnlyChanges v m n' where
  others w hw := by
    have hfirst := hview.sameIn w
    have hsecond := h.others w hw
    cases w with
    | numeric i => exact hsecond.trans hfirst
    | string i => exact hsecond.trans hfirst
  settings := h.settings.trans hview.settings
  palette := h.palette.trans hpalette
  size := by rw [h.size, hview.memory]
  bytes k hk := by rw [h.bytes k hk, hview.memory]

/-- The data line is found from the address of its label. -/
theorem Loaded.exists_dataLine {label : Text} {program line : List UInt8} {m : Machine} (h : Loaded m program)
    (hlabel : ∀ c ∈ label, isLetter c = true) (hdata : Label.DataLine label program line) :
    ∃ a b : Nat, m.labelAddress label = .ok a ∧ m.memory.nextLine a = .ok b ∧
      m.memory.readLine b = .ok (CodePage.decode line) := by
  obtain ⟨front, rest, back, hprogram, hrest, hfirst⟩ := hdata.place
  have hown : Memory.newline ∉ Label.mark label ++ rest := by
    rw [List.mem_append, not_or]
    exact ⟨Label.newline_not_mem_mark_of_isLetter hlabel, hrest⟩
  have hbehind : program =
      front ++ (Label.mark label ++ rest) ++ [Memory.newline] ++ line ++ Memory.newline :: back := by
    rw [hprogram]
    simp
  have hlabelLine := Memory.hasLine_of_slice hprogram h.fits h.bytes
  have hdataLine := Memory.hasLine_of_slice hbehind h.fits h.bytes
  have haddress := labelAddress_eq h label
  rw [hfirst] at haddress
  have hstart : programStart.toNat + front.length + (Label.mark label ++ rest).length + 1 =
      programStart.toNat + (front ++ (Label.mark label ++ rest) ++ [Memory.newline]).length := by
    simp only [List.length_append, List.length_singleton]
    omega
  refine ⟨_, _, haddress, hlabelLine.nextLine hown, ?_⟩
  rw [hstart]
  exact hdataLine.readLine hdata.fits

/-- The program has the data line, and what is kept for the label are the numbers on this line. -/
structure Serves (label : Text) (program line : List UInt8) (m : Machine) : Prop where
  size : 65536 ≤ m.memory.size
  attached : m.attached = true
  loaded : Loaded m program
  kept : ∀ data ∈ m.control.blocks.lookup label, data = itemsOf line

namespace Serves

variable {label : Text} {program line : List UInt8} {m : Machine} (h : Serves label program line m)
include h

/-- The label has an address, and the line behind it is read as the numbers. -/
theorem exists_labelAddress (hlabel : ∀ c ∈ label, isLetter c = true)
    (hdata : Label.DataLine label program line) :
    ∃ a, m.labelAddress label = .ok a ∧ Command.readBlock m a = .ok (itemsOf line) := by
  obtain ⟨a, b, haddress, hnext, hread⟩ := h.loaded.exists_dataLine hlabel hdata
  have hlength : (CodePage.decode line).length ≤ Text.digitLimit := by
    rw [CodePage.length_decode]
    exact hdata.short.trans (by decide)
  refine ⟨a, haddress, ?_⟩
  rw [Command.readBlock, h.attached, hnext]
  change (m.memory.readLine b >>= _) = _
  rw [hread]
  change (Token.parse _ >>= _) = _
  rw [Token.parse_numberLine hdata.numbers hlength]
  exact Command.leadingNumbers_numbers m _

theorem run_dataBlock {a : Nat} (hread : Command.readBlock m a = .ok (itemsOf line)) :
    ∃ blocks, (Command.dataBlock label a).run m =
        (.ok (itemsOf line), { m with control := { m.control with blocks } }) ∧
      blocks.lookup label = some (itemsOf line) := by
  cases hlookup : m.control.blocks.lookup label with
  | some data =>
    obtain rfl := h.kept data hlookup
    refine ⟨m.control.blocks, ?_, hlookup⟩
    rw [Command.dataBlock, Run.run_bind_ok (Run.run_get m), hlookup]
    rfl
  | none =>
    refine ⟨setNamed label (itemsOf line) m.control.blocks, ?_, by rw [lookup_setNamed, if_pos rfl]⟩
    have hask : (ask fun m => Command.readBlock m a).run m = (.ok (itemsOf line), m) := by
      rw [run_ask, hread]
    rw [Command.dataBlock, Run.run_bind_ok (Run.run_get m), hlookup]
    exact Run.run_bind_ok hask

theorem setNumeric (v : Fin 26) (d : Int) :
    Serves label program line ((Machine.setNumeric (numericName v) d).run m).2 := by
  have hsize := h.size
  obtain ⟨con, hset⟩ := run_setNumeric (m := m) (by omega) (numericAddress_numericName v) d
  have hvariable : wordStart v + 2 ≤ programStart.toNat := by
    have hle := wordStart_le v
    have hstart : programStart.toNat = 32768 := rfl
    omega
  rw [hset]
  refine ⟨?_, h.attached, ⟨h.loaded.size, ?_, ?_⟩, h.kept⟩
  · rwa [Bank.size_write]
  · rw [Bank.size_write]
    exact h.loaded.fits
  · rw [Bank.slice_write_outside (.inr hvariable)]
    exact h.loaded.bytes

end Serves

/-- `READ`, the label, an index and a variable. -/
def Reads (label : Text) (index : Token) (v : Fin 26) (line : Text) : Prop :=
  Calls line .readData [.word label, index, .numericVar (numericName v)]

/-- The outcome of reading an item into a variable. An item that is there is stored as a word, and nothing else
changes. Without one the read fails, and all variables stay as they are. -/
structure ItemRead (numbers : List Nat) (i : Nat) (v : Fin 26) (m : Machine) (r : Except Fault Unit)
    (n : Machine) : Prop where
  found : ∀ d, numbers[i]? = some d →
    r = .ok () ∧ n.numeric (numericName v) = .ok (d % 65536) ∧ OnlyChanges (.numeric v) m n
  missing : numbers.length ≤ i → r = .error .endOfData ∧ ∀ w, SameIn m n w

/-- Line after line, every read of the label with a natural number as its index reads this item. -/
def ReadsItems (label : Text) (numbers : List Nat) (m : Machine) (lines : List Text) : Prop :=
  Along (fun m l => ((runLine l).run m).2) (fun m l => ∀ index v (i : Nat), Reads label index v l →
    index.toNumeric m = .ok (i : Int) →
      ItemRead numbers i v m ((runLine l).run m).1 ((runLine l).run m).2) m lines

section Reads

variable {label : Text} {program line : List UInt8} {m : Machine} {index : Token} {v : Fin 26} {l : Text}
    (hlabel : ∀ c ∈ label, isLetter c = true) (hkeyword : Keyword.ofName? label = none)
    (hdata : Label.DataLine label program line)
include hlabel hkeyword hdata

/-- A read comes to its index with the items of the line, and nothing has changed but what is kept and logged. -/
theorem Serves.run_reads (h : Serves label program line m) (hreads : Reads label index v l) :
    ∃ n ts, Serves label program line n ∧ SameView m n ∧ n.palette = m.palette ∧
      Arguments.Has ts 2 index ∧ Arguments.Has ts 3 (.numericVar (numericName v)) ∧
      ∀ r c, (Command.pickItem (itemsOf line)).run ⟨n, ⟨ts, 2⟩⟩ = (r, c) →
        (runLine l).run m = (r, c.machine) := by
  obtain ⟨w, rest, hparse, hcommand⟩ := hreads
  obtain ⟨con, hline⟩ := run_commandLine hparse hcommand m
  -- The command only looks at its first three arguments, so whatever is behind them can be left open.
  generalize hts : Token.word w :: ([.word label, index, .numericVar (numericName v)] ++ rest) = ts at hline
  have hlogged : Serves label program line { m with console := con } :=
    ⟨h.size, h.attached, ⟨h.loaded.size, h.loaded.fits, h.loaded.bytes⟩, h.kept⟩
  obtain ⟨a, haddress, hread⟩ := hlogged.exists_labelAddress hlabel hdata
  obtain ⟨blocks, hblock, hkept⟩ := hlogged.run_dataBlock hread
  have htake : Call.nextLabel.run ⟨{ m with console := con }, ⟨ts, 1⟩⟩ =
      (.ok (label, (a : Int)), ⟨{ m with console := con }, ⟨ts, 2⟩⟩) := by
    have hfirst : Arguments.Has ts 1 (.word label) := hts ▸ ⟨by decide, by decide, rfl⟩
    have hname : Token.toLabel { m with console := con } (.word label) = .ok (label, (a : Int)) := by
      rw [Token.toLabel, hkeyword, Token.toAddress, hkeyword, haddress]
      rfl
    rw [Call.nextLabel, Call.run_nextAs _ hfirst, hname]
    rfl
  have hfind : (Call.onMachine (Command.dataBlock label a)).run ⟨{ m with console := con }, ⟨ts, 2⟩⟩ =
      (.ok (itemsOf line),
        ⟨{ m with control := { m.control with blocks }, console := con }, ⟨ts, 2⟩⟩) := by
    rw [Call.onMachine, Run.run_onPart, hblock]
  refine ⟨{ m with control := { m.control with blocks }, console := con }, ts, ?_, ⟨rfl, rfl, rfl⟩, rfl,
    hts ▸ ⟨by decide, by decide, rfl⟩, hts ▸ ⟨by decide, by decide, rfl⟩,
    fun r c hpick => hline r c ?_⟩
  · exact ⟨h.size, h.attached, ⟨h.loaded.size, h.loaded.fits, h.loaded.bytes⟩,
      fun data hmem => Option.some.inj (hmem.symm.trans hkept)⟩
  · change Command.runReadData.run _ = _
    rw [Command.runReadData_eq, Run.run_bind_ok htake, Run.run_bind_ok hfind, hpick]

/-- One read: it keeps what the next one needs, and with a natural number as its index it reads this item. -/
theorem Serves.step (h : Serves label program line m) (hreads : Reads label index v l) :
    Serves label program line ((runLine l).run m).2 ∧ ∀ i : Nat, index.toNumeric m = .ok (i : Int) →
      ItemRead (numbersIn (CodePage.decode line)) i v m ((runLine l).run m).1 ((runLine l).run m).2 := by
  obtain ⟨n, ts, hserves, hview, hpalette, hindex, hvar, hrun⟩ := h.run_reads hlabel hkeyword hdata hreads
  have hsize := hserves.size
  have hlength : (itemsOf line).length = (numbersIn (CodePage.decode line)).length := List.length_map ..
  refine ⟨?_, fun i hi => ⟨fun d hd => ?_, fun hle => ?_⟩⟩
  · rcases hpick : (Command.pickItem (itemsOf line)).run ⟨n, ⟨ts, 2⟩⟩ with ⟨r, c⟩
    have hmachine := Command.machine_pickItem (m := n) hindex (itemsOf line) hvar
    rw [hpick] at hmachine
    rw [hrun r c hpick]
    rcases hmachine with rfl | ⟨d, hset⟩
    · exact hserves
    · exact hset ▸ hserves.setNumeric v d
  · obtain ⟨hlt, -⟩ := List.getElem?_eq_some_iff.mp hd
    have hshort : (numbersIn (CodePage.decode line)).length ≤ 255 := by
      have hfields := length_fields_le (CodePage.decode line)
      rw [CodePage.length_decode] at hfields
      rw [numbersIn, List.length_map]
      exact hfields.trans hdata.short
    have hplace : place .noSuchItem (itemsOf line).length i = .ok i :=
      place_inside (by omega) (by omega) (by unfold indexLimit; omega)
    have hitem : (itemsOf line)[i]?.getD 0 = d := by
      rw [itemsOf, List.getElem?_map, hd]
      rfl
    obtain ⟨n', hset, hvalue, honly⟩ := @exists_setNumeric n v (by omega) d
    have hpick := Command.run_pickItem_found hindex _ hvar ((hview.toNumeric index).trans hi) (by omega) hplace
    rw [hitem, hset] at hpick
    rw [hrun _ _ hpick]
    exact ⟨rfl, hvalue, honly.of_sameView hview hpalette⟩
  · rw [hrun _ _ (Command.run_pickItem_missing hindex _ ((hview.toNumeric index).trans hi) (by omega))]
    exact ⟨rfl, hview.sameIn⟩

end Reads

/-- The reads of a label that has not been read before, one after another. In whatever order they come, each takes
the item at its index from the line behind the label, or finds that the line has no such item. -/
theorem read_items (m : Machine) (label : Text) (program line : List UInt8) (lines : List Text)
    (hsize : 65536 ≤ m.memory.size) (hattached : m.attached = true) (hloaded : Loaded m program)
    (hlabel : ∀ c ∈ label, isLetter c = true) (hkeyword : Keyword.ofName? label = none)
    (hdata : Label.DataLine label program line) (hunread : m.control.blocks.lookup label = none)
    (hlines : ∀ l ∈ lines, ∃ index v, Reads label index v l) :
    ReadsItems label (numbersIn (CodePage.decode line)) m lines := by
  have hserves : Serves label program line m := ⟨hsize, hattached, hloaded, by rw [hunread]; nofun⟩
  clear hsize hattached hloaded hunread
  induction lines generalizing m with
  | nil => trivial
  | cons l lines ih =>
    obtain ⟨⟨index, v, hreads⟩, hrest⟩ := List.forall_mem_cons.mp hlines
    refine ⟨fun index' v' i hreads' hi => (hserves.step hlabel hkeyword hdata hreads').2 i hi, ?_⟩
    exact ih _ hrest (hserves.step hlabel hkeyword hdata hreads).1

/-- `READ` with everything written out, and one space between. -/
def readCommand (label : Text) (i : Nat) (v : Fin 26) : Text :=
  "READ".toList ++ [' '] ++ (label ++ [' '] ++ (Text.ofNat i ++ [' '] ++ numericName v))

theorem reads_readCommand {label : Text} (hlabel : Label.Lettered label) {i : Nat}
    (hi : i < 10 ^ Text.digitLimit) (v : Fin 26) : Reads label (.number i) v (readCommand label i v) := by
  have hcapital : (Char.ofNat (65 + v)).isUpper = true := by
    revert v
    decide
  have hcanonical : ∀ t ∈ [Token.word "READ".toList, .word label, .number i, .numericVar (numericName v)],
      Token.Canonical t := by
    simp only [List.forall_mem_cons]
    exact ⟨.word _ (by decide) (List.all_eq_true.mp (by decide)), .word _ hlabel.long hlabel.letters,
      .number i hi, .numericVar _ hcapital, by simp⟩
  have hspaced := Token.Spaced.more "READ".toList 0 (.more label 0 (.more (Text.ofNat i) 0
    (.one (numericName v))))
  have hsplit := @Token.splitLine_spaced _ hcanonical (by rintro t ⟨⟩; decide) [] _ [] (by simp) (by simp)
    hspaced
  rw [List.append_nil] at hsplit
  exact ⟨_, [], Token.parse_of_splitLine hcanonical hsplit, by decide +kernel⟩

/-- The bytes of `1 022  70000 `. -/
def threeNumbers : List UInt8 := CodePage.encode "1 022  70000 ".toList

/-- The label `AB` with three numbers behind it, and a number with a space in front on the next line. -/
def dataProgram : List UInt8 :=
  CodePage.encode "PRINT 1\nAB:\n".toList ++ threeNumbers ++ CodePage.encode "\n 7\n".toList

/-- Reads from the end, from behind the end and from the start. -/
def mixedReads : List Text := ["READ AB 2 V".toList, "READ AB 3 W".toList, "READ AB 0 W".toList]

/-- Of the three reads the first cuts its item to a word, and the second fails. -/
theorem read_items_mixedReads :
    Label.DataLine "AB".toList dataProgram threeNumbers ∧
      numbersIn (CodePage.decode threeNumbers) = [1, 22, 70000] ∧
      ∃ m₁ m₂ m₃,
        (runLine "READ AB 2 V".toList).run (withProgram {} dataProgram) = (.ok (), m₁) ∧
        m₁.numeric ['V'] = .ok 4464 ∧
        (runLine "READ AB 3 W".toList).run m₁ = (.error .endOfData, m₂) ∧
        (runLine "READ AB 0 W".toList).run m₂ = (.ok (), m₃) ∧ m₃.numeric ['W'] = .ok 1 := by
  have hdata : Label.DataLine "AB".toList dataProgram threeNumbers := by
    refine ⟨⟨CodePage.encode "PRINT 1\n".toList, [], CodePage.encode " 7\n".toList, ?_, by simp, ?_⟩, ?_, ?_⟩
    · decide +kernel
    · decide +kernel
    · decide +kernel
    · decide +kernel
  have hnumbers : numbersIn (CodePage.decode threeNumbers) = [1, 22, 70000] := by decide +kernel
  have hlabel : Label.Lettered "AB".toList := ⟨by decide, List.all_eq_true.mp (by decide)⟩
  have hreads {l : Text} (i : Nat) (hi : i < 10 ^ 1) (v : Fin 26) (hl : readCommand "AB".toList i v = l) :
      Reads "AB".toList (.number i) v l :=
    hl ▸ reads_readCommand hlabel (Nat.lt_of_lt_of_le hi (Nat.pow_le_pow_right (by decide) (by decide))) v
  have hfirst : Reads "AB".toList (.number 2) 21 "READ AB 2 V".toList := hreads 2 (by decide) 21 (by decide)
  have hsecond : Reads "AB".toList (.number 3) 22 "READ AB 3 W".toList := hreads 3 (by decide) 22 (by decide)
  have hthird : Reads "AB".toList (.number 0) 22 "READ AB 0 W".toList := hreads 0 (by decide) 22 (by decide)
  have hlines : ∀ l ∈ mixedReads, ∃ index v, Reads "AB".toList index v l := by
    simp only [mixedReads, List.forall_mem_cons]
    exact ⟨⟨_, _, hfirst⟩, ⟨_, _, hsecond⟩, ⟨_, _, hthird⟩, by simp⟩
  have hall := read_items (withProgram {} dataProgram) "AB".toList dataProgram threeNumbers mixedReads
    (by decide +kernel) rfl (loaded_withProgram (by decide +kernel) dataProgram)
    (List.all_eq_true.mp (by decide)) (by decide +kernel) hdata rfl hlines
  rw [hnumbers] at hall
  -- The lines are variables here, so that no run is evaluated.
  have houtcomes (m : Machine) (l₁ l₂ l₃ : Text) (h₁ : Reads "AB".toList (.number 2) 21 l₁)
      (h₂ : Reads "AB".toList (.number 3) 22 l₂) (h₃ : Reads "AB".toList (.number 0) 22 l₃)
      (h : ReadsItems "AB".toList [1, 22, 70000] m [l₁, l₂, l₃]) :
      ∃ m₁ m₂ m₃, (runLine l₁).run m = (.ok (), m₁) ∧ m₁.numeric ['V'] = .ok 4464 ∧
        (runLine l₂).run m₁ = (.error .endOfData, m₂) ∧
        (runLine l₃).run m₂ = (.ok (), m₃) ∧ m₃.numeric ['W'] = .ok 1 := by
    obtain ⟨hread₁, hread₂, hread₃, -⟩ := h
    obtain ⟨hok₁, hvalue₁, -⟩ := (hread₁ _ _ 2 h₁ rfl).found 70000 rfl
    obtain ⟨herror, -⟩ := (hread₂ _ _ 3 h₂ rfl).missing (by decide)
    obtain ⟨hok₃, hvalue₃, -⟩ := (hread₃ _ _ 0 h₃ rfl).found 1 rfl
    exact ⟨_, _, _, Prod.ext hok₁ rfl, hvalue₁, Prod.ext herror rfl, Prod.ext hok₃ rfl, hvalue₃⟩
  exact ⟨hdata, hnumbers, houtcomes _ _ _ _ hfirst hsecond hthird hall⟩

end Machine
end BasicMachine
