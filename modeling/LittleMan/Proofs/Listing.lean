import Mathlib.Data.List.DropRight
import LittleMan.Listing
import LittleMan.Proofs.Lines
import LittleMan.Proofs.Numerals

/-!
# A listing loses nothing

Assembly text tells which word it was made of: the three letters in front tell the operation, and
what follows them is the number that goes with it. A line of a listing tells even more, since it
shows the word as well; and the lines tell the whole program.

The assembly text stands in a column, and a long number runs over the end of the column. So a line
is not read by columns but by its marks, of which the first and the last are the ones that count.
Neither an address nor a word can hold a mark. That assembly text holds none does not matter.

## Main definitions

* `Opcode.keyword`, `Instruction.argument` — the two parts of assembly text
* `Listing.Says` — what a line of a listing says

## Main results

* `Instruction.text_injective`, `Listing.assembly_injective` — assembly text tells the word
* `Listing.Says.unique` — a line says one thing
* `Listing.says_row`, `Listing.lines_ofCells` — the lines of a listing and what they say
* `Listing.ofCells_recoverable` — a listing loses nothing
-/

namespace LittleMan

/-! ### Assembly text -/

namespace Opcode

/-- The three letters in front of assembly text. -/
def keyword : Opcode → String
  | unknown => "DAT"
  | o => o.mnemonic

/-- The operation that a keyword stands for. -/
def named? (s : String) : Option Opcode :=
  [hlt, add, sub, sta, lda, bra, brz, brp, inp, out, unknown].find? fun o => o.keyword = s

theorem named?_keyword (o : Opcode) : named? o.keyword = some o := by
  cases o <;> decide

theorem keyword_injective : Function.Injective keyword := by
  intro o p h
  have hnamed := congrArg named? h
  rw [named?_keyword, named?_keyword] at hnamed
  exact Option.some.inj hnamed

theorem length_toList_keyword (o : Opcode) : o.keyword.toList.length = 3 := by
  cases o <;> rfl

theorem lt_toNat_of_mem_keyword {o : Opcode} : ∀ c ∈ o.keyword.toList, 32 < c.toNat := by
  have hall : (o.keyword.toList.all fun c => 32 < c.toNat) = true := by cases o <;> rfl
  intro c hc
  exact of_decide_eq_true (List.all_eq_true.1 hall c hc)

end Opcode

namespace Instruction

/-- The number that goes with an operation: the mailbox that it names, or the word that is no
instruction. Where there is neither it is zero. -/
def number : Instruction → Int
  | add a | sub a | sta a | lda a | bra a | brz a | brp a => a
  | unknown raw => raw
  | hlt | inp | out => 0

/-- The instruction of an operation and the number that goes with it. -/
def ofParts (n : Int) : Opcode → Instruction
  | .hlt => hlt
  | .add => add n.toNat
  | .sub => sub n.toNat
  | .sta => sta n.toNat
  | .lda => lda n.toNat
  | .bra => bra n.toNat
  | .brz => brz n.toNat
  | .brp => brp n.toNat
  | .inp => inp
  | .out => out
  | .unknown => unknown n

theorem ofParts_opcode (i : Instruction) : ofParts i.number i.opcode = i := by
  cases i <;> rfl

/-- What follows the keyword in assembly text. -/
def argument : Instruction → List Char
  | add a | sub a | sta a | lda a | bra a | brz a | brp a => ' ' :: Numeral.padded 2 a
  | unknown raw => ' ' :: Numeral.signed raw
  | hlt | inp | out => []

theorem toList_text (i : Instruction) : i.text.toList = i.opcode.keyword.toList ++ i.argument := by
  cases i <;> simp [text, operand, opcode, Opcode.keyword, Opcode.mnemonic, argument]

/-- What follows a keyword is a numeral, or nothing. -/
theorem argument_cases (i : Instruction) :
    (i.argument = [] ∧ i.number = 0) ∨
      ∃ s, i.argument = ' ' :: s ∧ Numeral.Denotes s i.number := by
  cases i with
  | unknown raw =>
    have h := Numeral.denotes_padded 0 raw
    rw [Numeral.padded_zero] at h
    exact .inr ⟨_, rfl, h⟩
  | hlt | inp | out => exact .inl ⟨rfl, rfl⟩
  | add a | sub a | sta a | lda a | bra a | brz a | brp a =>
    exact .inr ⟨_, rfl, Numeral.denotes_padded 2 a⟩

theorem number_eq_of_argument_eq {i j : Instruction} (h : i.argument = j.argument) :
    i.number = j.number := by
  rcases i.argument_cases with ⟨hi, hzero⟩ | ⟨s, hi, hs⟩ <;>
    rcases j.argument_cases with ⟨hj, hzero'⟩ | ⟨t, hj, ht⟩ <;> rw [hi, hj] at h
  · rw [hzero, hzero']
  · cases h
  · cases h
  · obtain rfl : s = t := (List.cons.inj h).2
    exact hs.unique ht

/-- **Assembly text tells the instruction.** -/
theorem text_injective : Function.Injective text := by
  intro i j h
  have hparts := congrArg String.toList h
  rw [toList_text, toList_text] at hparts
  have hlength : i.opcode.keyword.toList.length = j.opcode.keyword.toList.length := by
    rw [Opcode.length_toList_keyword, Opcode.length_toList_keyword]
  obtain ⟨hkeyword, hargument⟩ := List.append_inj hparts hlength
  have hopcode : i.opcode = j.opcode := Opcode.keyword_injective (String.toList_inj.1 hkeyword)
  rw [← i.ofParts_opcode, ← j.ofParts_opcode, hopcode, number_eq_of_argument_eq hargument]

/-- There are no control characters in assembly text. -/
theorem le_toNat_of_mem_text {i : Instruction} {c : Char} (h : c ∈ i.text.toList) :
    32 ≤ c.toNat := by
  rw [toList_text, List.mem_append] at h
  rcases h with h | h
  · exact Nat.le_of_lt (Opcode.lt_toNat_of_mem_keyword c h)
  · rcases i.argument_cases with ⟨hnone, -⟩ | ⟨s, hsome, hs⟩
    · rw [hnone] at h
      exact absurd h List.not_mem_nil
    · rw [hsome, List.mem_cons] at h
      rcases h with rfl | h
      · decide
      · exact Nat.le_of_lt (hs.lt_toNat h)

/-- Assembly text does not end with a blank. -/
theorem getLast?_text_ne (i : Instruction) : i.text.toList.getLast? ≠ some ' ' := by
  intro h
  rw [toList_text] at h
  rcases i.argument_cases with ⟨hnone, -⟩ | ⟨s, hsome, hs⟩
  · rw [hnone, List.append_nil] at h
    exact absurd (Opcode.lt_toNat_of_mem_keyword _ (List.mem_of_getLast? h)) (by decide)
  · have hlast : s.getLast? = some ' ' := by
      rwa [hsome, List.append_cons, List.getLast?_append_of_ne_nil _ hs.ne_nil] at h
    exact absurd (hs.lt_toNat (List.mem_of_getLast? hlast)) (by decide)

end Instruction

namespace Listing

/-- **No two words have the same assembly text.** -/
theorem assembly_injective : Function.Injective assembly := by
  intro v w h
  have hdecode := Instruction.text_injective h
  rw [← Instruction.encode_decode v, hdecode, Instruction.encode_decode]

/-! ### What a line says -/

/-- The mark in front of the word in a line of a listing. -/
def mark : List Char :=
  [' ', '/', '/', ' ']

/-- What a line of a listing says. The digits in front of the first colon are the address, and the
word stands behind the last mark. Its assembly text is what stands in between, without the blanks at
the end. -/
inductive Says (line : List Char) : Nat → String → Int → Prop
  | intro {number column numeral : List Char} {address : Nat} {text : String} {w : Int}
      (hline : line = number ++ ':' :: ' ' :: column ++ mark ++ numeral)
      (hfirst : number = line.takeWhile (· ≠ ':'))
      (hlast : ∀ front back, line = front ++ mark ++ back → numeral.length ≤ back.length)
      (haddress : Numeral.Digits number address)
      (htext : text.toList = column.rdropWhile (· = ' '))
      (hword : Numeral.Denotes numeral w) : Says line address text w

/-- **A line says one thing.** -/
theorem Says.unique {line : List Char} {address address' : Nat} {text text' : String} {w w' : Int}
    (h : Says line address text w) (h' : Says line address' text' w') :
    address = address' ∧ text = text' ∧ w = w' := by
  obtain ⟨hline, hfirst, hlast, haddress, htext, hword⟩ := h
  obtain ⟨hline', hfirst', hlast', haddress', htext', hword'⟩ := h'
  have hlength := Nat.le_antisymm (hlast _ _ hline') (hlast' _ _ hline)
  obtain ⟨hfront, rfl⟩ := List.append_inj' (hline.symm.trans hline') hlength
  obtain rfl := hfirst.trans hfirst'.symm
  have hrest := List.append_cancel_left (List.append_cancel_right hfront)
  obtain rfl := (List.cons.inj (List.cons.inj hrest).2).2
  exact ⟨haddress.value.symm.trans haddress'.value, String.toList_inj.1 (htext.trans htext'.symm),
    hword.unique hword'⟩

/-- Where no slash follows a mark, no mark comes after it. A later one would overlap with it, or lie
in what follows. -/
theorem length_le_of_mark {before numeral front back : List Char} (h : '/' ∉ numeral)
    (hline : before ++ mark ++ numeral = front ++ mark ++ back) :
    numeral.length ≤ back.length := by
  by_contra hlt
  have hlater : '/' :: ' ' :: back <:+ before ++ mark ++ numeral :=
    ⟨front ++ [' ', '/'], by rw [hline]; simp [mark]⟩
  have hnumeral : ' ' :: numeral <:+ before ++ mark ++ numeral :=
    ⟨before ++ [' ', '/', '/'], by simp [mark]⟩
  have hin : '/' :: ' ' :: back <:+ ' ' :: numeral := by
    refine List.suffix_of_suffix_length_le hlater hnumeral ?_
    rw [List.length_cons, List.length_cons, List.length_cons]
    omega
  rcases List.suffix_cons_iff.1 hin with heq | hsuffix
  · exact absurd (List.cons.inj heq).1 (by decide)
  · exact h (hsuffix.subset List.mem_cons_self)

theorem rdropWhile_append_replicate {s : List Char} (h : s.getLast? ≠ some ' ') (k : Nat) :
    (s ++ List.replicate k ' ').rdropWhile (· = ' ') = s := by
  induction k with
  | zero =>
    rw [List.replicate_zero, List.append_nil, List.rdropWhile_eq_self_iff]
    intro hne hlast
    rw [List.getLast?_eq_some_getLast hne] at h
    exact h (congrArg some (of_decide_eq_true hlast))
  | succ k ih =>
    rw [List.replicate_succ', ← List.append_assoc, List.rdropWhile_concat_pos _ _ _ (by decide), ih]

theorem toList_row (address : Nat) (w : Int) :
    (row address w).toList =
      Numeral.padded 2 address ++
        ':' :: ' ' :: ((assembly w).toList ++ List.replicate (8 - (assembly w).length) ' ') ++
        mark ++ Numeral.padded 3 w := by
  simp [row, mark]

/-- **A line of a listing says what it was made of.** -/
theorem says_row (address : Nat) (w : Int) :
    Says (row address w).toList address (assembly w) w := by
  have hword := Numeral.denotes_padded 3 w
  have hslash : '/' ∉ Numeral.padded 3 w := hword.not_mem (by decide) (by decide) (by decide)
  have hcolon : ':' ∉ Numeral.padded 2 address :=
    (Numeral.denotes_padded 2 address).not_mem (by decide) (by decide) (by decide)
  have hnumber : ∀ c ∈ Numeral.padded 2 address, decide (c ≠ ':') = true := fun c hc =>
    decide_eq_true fun h => hcolon (h ▸ hc)
  refine .intro (toList_row address w) ?_ (fun front back h => ?_)
    (Numeral.digits_zeros_append _ address) ?_ hword
  · rw [toList_row, List.append_assoc, List.append_assoc, List.takeWhile_append_of_pos hnumber]
    simp
  · rw [toList_row] at h
    exact length_le_of_mark hslash h
  · exact (rdropWhile_append_replicate (Instruction.getLast?_text_ne _) _).symm

/-! ### The lines of a listing -/

/-- There are no control characters in a line. -/
theorem le_toNat_of_mem_row {address : Nat} {w : Int} {c : Char}
    (h : c ∈ (row address w).toList) : 32 ≤ c.toNat := by
  have hnumeral {width : Nat} {n : Int} (hc : c ∈ Numeral.padded width n) : 32 ≤ c.toNat :=
    Nat.le_of_lt ((Numeral.denotes_padded width n).lt_toNat hc)
  rw [toList_row] at h
  simp only [mark, List.mem_append, List.mem_cons, List.mem_replicate, List.not_mem_nil,
    or_false] at h
  rcases h with ((h | rfl | rfl | h | ⟨-, rfl⟩) | rfl | rfl | rfl | rfl) | h
  · exact hnumeral h
  · decide
  · decide
  · exact Instruction.le_toNat_of_mem_text h
  · decide
  · decide
  · decide
  · decide
  · decide
  · exact hnumeral h

/-- The lines for the words of a program. -/
def rows (cells : List Int) : List (List Char) :=
  cells.zipIdx.map fun cell => (row cell.2 cell.1).toList

theorem getElem?_rows (cells : List Int) (i : Nat) :
    (rows cells)[i]? = cells[i]?.map fun w => (row i w).toList := by
  rw [rows, List.getElem?_map, List.getElem?_zipIdx, Option.map_map, Nat.zero_add]
  rfl

theorem rows_injective : Function.Injective rows := by
  have hrow : Function.Injective fun cell : Int × Nat => (row cell.2 cell.1).toList := by
    rintro ⟨w, address⟩ ⟨w', address'⟩ h
    have hsays := says_row address w
    rw [show (row address w).toList = (row address' w').toList from h] at hsays
    obtain ⟨rfl, -, rfl⟩ := hsays.unique (says_row address' w')
    rfl
  intro cells cells' h
  have hcells := congrArg (List.map Prod.fst) (hrow.list_map h)
  rwa [List.zipIdx_map_fst, List.zipIdx_map_fst] at hcells

/-- **The lines of a listing.** -/
theorem lines_ofCells (cells : List Int) :
    Text.lines (ofCells cells).toList =
      "// LMC Disassembly".toList :: "// ---------------".toList :: [] :: rows cells := by
  have htext : (ofCells cells).toList =
      ("// LMC Disassembly".toList :: "// ---------------".toList :: [] :: rows cells).flatMap
        fun line => line ++ ['\n'] := by
    simp [ofCells, heading, rows, List.flatMap_map]
  have hcontrol {c : Char} (hc : c.toNat < 32) : ∀ line ∈ rows cells, c ∉ line := by
    intro line hline hmem
    obtain ⟨cell, -, rfl⟩ := List.mem_map.1 hline
    have := le_toNat_of_mem_row hmem
    omega
  have hfeed : ∀ line ∈ "// LMC Disassembly".toList :: "// ---------------".toList :: [] ::
      rows cells, '\n' ∉ line := by
    simp only [List.forall_mem_cons]
    exact ⟨by decide, by decide, List.not_mem_nil, hcontrol (by decide)⟩
  have hreturn : (rows cells).map (Text.dropReturn '\r') = rows cells := by
    calc (rows cells).map (Text.dropReturn '\r')
        = (rows cells).map id := List.map_congr_left fun line hline =>
          Text.dropReturn_of_not_mem (hcontrol (by decide) line hline)
      _ = rows cells := List.map_id _
  rw [htext, Text.lines, Text.linesBy_join hfeed, List.map_cons, List.map_cons, List.map_cons,
    hreturn]
  rfl

/-- **A listing loses nothing.** No two words have the same assembly text. A listing has two lines
of comment, a blank line, and then one line for each word of the program; and that line says the
address of the word, its assembly text and the word, and nothing else. So no two programs have the
same listing. -/
theorem ofCells_recoverable :
    Function.Injective assembly ∧
    (∀ cells : List Int, ∃ rows,
      Text.lines (ofCells cells).toList =
        "// LMC Disassembly".toList :: "// ---------------".toList :: [] :: rows ∧
      rows.length = cells.length ∧
      ∀ i w, cells[i]? = some w → ∃ line, rows[i]? = some line ∧
        ∀ address text word, Says line address text word ↔
          address = i ∧ text = assembly w ∧ word = w) ∧
    Function.Injective ofCells := by
  refine ⟨assembly_injective, fun cells => ⟨rows cells, lines_ofCells cells, ?_, ?_⟩, ?_⟩
  · rw [rows, List.length_map, List.length_zipIdx]
  · intro i w hw
    refine ⟨(row i w).toList, by rw [getElem?_rows, hw, Option.map_some], ?_⟩
    intro address text word
    constructor
    · exact fun h => h.unique (says_row i w)
    · rintro ⟨rfl, rfl, rfl⟩
      exact says_row address word
  · intro cells cells' h
    have hlines : Text.lines (ofCells cells).toList = Text.lines (ofCells cells').toList := by
      rw [h]
    simp only [lines_ofCells, List.cons.injEq, true_and] at hlines
    exact rows_injective hlines

/-- A word that is too long for the column, in the last of three lines. -/
theorem ofCells_recoverable_of_long :
    let cells : List Int := [505, 0, -9223372036854775808]
    let line := "02: DAT -9223372036854775808 // -9223372036854775808".toList
    (Text.lines (ofCells cells).toList)[5]? = some line ∧
      (∀ address text word, Says line address text word ↔
        address = 2 ∧ text = "DAT -9223372036854775808" ∧ word = -9223372036854775808) ∧
      ofCells cells ≠ ofCells [505, 0, 9223372036854775807] := by
  intro cells line
  obtain ⟨-, hlines, hinjective⟩ := ofCells_recoverable
  obtain ⟨rows, hrows, -, hsays⟩ := hlines cells
  have hline : (Text.lines (ofCells cells).toList)[5]? = some line := by
    rw [lines_ofCells, List.getElem?_cons_succ, List.getElem?_cons_succ, List.getElem?_cons_succ,
      getElem?_rows]
    decide +kernel
  have hassembly : assembly (-9223372036854775808) = "DAT -9223372036854775808" := by
    decide +kernel
  obtain ⟨line', hline', hsays'⟩ := hsays 2 _ rfl
  rw [hassembly] at hsays'
  have hsame : line = line' := by
    rw [hrows] at hline
    exact Option.some.inj (hline.symm.trans hline')
  rw [← hsame] at hsays'
  exact ⟨hline, hsays', fun h => absurd (hinjective h) (by decide)⟩

end Listing

end LittleMan
