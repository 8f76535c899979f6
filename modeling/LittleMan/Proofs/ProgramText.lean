import LittleMan.ProgramText
import LittleMan.Proofs.Lines
import LittleMan.Proofs.Numerals

/-!
# Program text and what it stands for

Only what is left of a line without the blanks around it counts, so that it makes no difference how
lines end, nor whether they are decoded one by one. The lines that are written for the words of a
program stand for these words, and the lines before them for nothing; so a program is what its text
is read as.

## Main results

* `ProgramText.parse_join` — the text of a list of lines
* `ProgramText.read_encode` — a stream of bytes is read as the text that it encodes
* `ProgramText.parse_write` — what is written is read back
* `ProgramText.fits_of_mem_ofLines` — the words that are read fit the adder
* `ProgramText.write_roundtrip` — program text there and back, from either side
-/

namespace LittleMan

/-- A return symbol at the end of a line is trimmed like any other blank. -/
@[simp] theorem Text.trim_dropReturn (line : List Char) :
    trim (dropReturn '\r' line) = trim line := by
  rcases eq_dropReturn_or '\r' line with h | h
  · rw [← h]
  · rw [← trim_concat_of_isBlank (c := '\r') (by decide) (dropReturn '\r' line), ← h]

/-! ### Lines -/

namespace ProgramLine

@[simp] theorem ofText_dropReturn (line : List Char) :
    ofText (Text.dropReturn '\r' line) = ofText line := by
  rw [ofText, ofText, Text.trim_dropReturn]

/-- A line with a numeral for a word that fits is a line with that word. -/
theorem ofText_of_denotes {s : List Char} {w : Int} (h : Numeral.Denotes s w) (hw : Word.Fits w) :
    ofText s = .cell w := by
  have hblank : ∀ c ∈ s, Text.isBlank c = false := by
    intro c hc
    rcases h.sign_or_isDigit hc with rfl | rfl | hdigit
    · decide
    · decide
    · exact Text.isBlank_of_isDigit hdigit
  have hslash : '/' ∉ s := h.not_mem (by decide) (by decide) (by decide)
  have hcomment : (s.isEmpty || ['/', '/'].isPrefixOf s) = false := by
    cases s with
    | nil => exact absurd rfl h.ne_nil
    | cons c rest =>
      have hc : '/' ≠ c := fun hc => hslash (hc ▸ List.mem_cons_self)
      simp [List.isPrefixOf, hc]
  have hread : Word.read s = .ok w := Word.read_eq_ok_iff.2 ⟨h, hw⟩
  simp [ofText, Text.trim_of_not_isBlank hblank, hcomment, hread]

/-- A line that begins with two slashes is a comment. -/
theorem ofText_slashes {d : Char} (hd : Text.isBlank d = false) (s : List Char) :
    ofText ('/' :: '/' :: (s ++ [d])) = .comment := by
  have htrim := Text.trim_of_ends (c := '/') (by decide) hd ('/' :: s)
  simp [ofText, List.cons_append] at htrim ⊢
  simp [htrim]

/-- The word of a line fits. -/
theorem fits_of_ofText {line : List Char} {w : Int} (h : ofText line = .cell w) : Word.Fits w := by
  rw [ofText] at h
  split at h
  · cases h
  · split at h
    · next hread =>
      cases h
      exact (Word.read_eq_ok_iff.1 hread).2
    · cases h

end ProgramLine

namespace ProgramText

/-! ### Reading -/

/-- Return symbols at the ends of lines make no difference. -/
theorem ofLines_map_dropReturn (number : Nat) (lines : List (List Char)) :
    ofLines number (lines.map (Text.dropReturn '\r')) = ofLines number lines := by
  induction lines generalizing number with
  | nil => rfl
  | cons line rest ih =>
    rw [List.map_cons, ofLines_cons, ofLines_cons, ProgramLine.ofText_dropReturn, ih]

/-- **The text of a list of lines** is read line by line. -/
theorem parse_join {lines : List (List Char)} (h : ∀ line ∈ lines, '\n' ∉ line) :
    parse (String.ofList (lines.flatMap fun line => line ++ ['\n'])) = ofLines 1 lines := by
  rw [parse, String.toList_ofList, Text.lines, Text.linesBy_join h, ofLines_map_dropReturn]

/-- A list has answers for all its items if each item has one. -/
theorem mapM_eq_some_iff {α β : Type} {f : α → Option β} {xs : List α} {ys : List β} :
    xs.mapM f = some ys ↔ xs.map f = ys.map some := by
  induction xs generalizing ys with
  | nil => cases ys <;> simp
  | cons x xs ih =>
    rw [List.mapM_cons, List.map_cons]
    constructor
    · intro h
      obtain ⟨y, hy, h⟩ := Option.bind_eq_some_iff.1 h
      obtain ⟨later, hlater, h⟩ := Option.bind_eq_some_iff.1 h
      cases h
      rw [hy, ih.1 hlater, List.map_cons]
    · intro h
      cases ys with
      | nil => cases h
      | cons y later =>
        obtain ⟨hy, hlater⟩ := List.cons.inj h
        rw [hy, ih.2 hlater]
        rfl

theorem streamText_encode (s : List Char) :
    streamText (Text.encode s) =
      some (String.ofList ((Text.lines s).flatMap fun line => line ++ ['\n'])) := by
  have hdecode : ((Text.lines s).map Text.encode).mapM Text.decode = some (Text.lines s) := by
    rw [mapM_eq_some_iff, List.map_map]
    exact List.map_congr_left fun line _ => Text.decode_encode line
  rw [streamText, Text.byteLines_encode, hdecode, Option.map_some]

/-- **A stream of bytes is read as the text that it encodes.** -/
theorem read_encode (s : String) : read (Text.encode s.toList) = some (parse s) := by
  have hlines : ∀ line ∈ Text.lines s.toList, '\n' ∉ line :=
    fun line => Text.feed_not_mem_of_mem_linesBy
  rw [read, streamText_encode, Option.map_some, parse_join hlines, parse]

/-! ### Writing -/

/-- The lines that are written for a program. -/
def writtenLines (cells : List Int) : List (List Char) :=
  "// LMC program".toList :: ("// " ++ Numeral.plain cells.length ++ " cells").toList :: [] ::
    cells.map (Numeral.padded 3)

theorem write_eq (cells : List Int) :
    write cells = String.ofList ((writtenLines cells).flatMap fun line => line ++ ['\n']) := by
  rw [← String.toList_inj]
  unfold write
  simp [writtenLines, cellLine, List.flatMap_map]

theorem feed_not_mem_writtenLines {cells : List Int} {line : List Char}
    (h : line ∈ writtenLines cells) : '\n' ∉ line := by
  have hnumeral {s : List Char} {n : Int} (hs : Numeral.Denotes s n) : '\n' ∉ s :=
    hs.not_mem (by decide) (by decide) (by decide)
  simp only [writtenLines, List.mem_cons, List.mem_map] at h
  rcases h with rfl | rfl | rfl | ⟨w, -, rfl⟩
  · decide
  · have hcount := hnumeral (Numeral.denotes_padded 0 cells.length)
    rw [Numeral.padded_zero] at hcount
    simp [hcount]
  · exact List.not_mem_nil
  · exact hnumeral (Numeral.denotes_padded 3 w)

/-- The lines that are written for words that fit are the lines of these words. -/
theorem ofLines_map_padded {cells : List Int} (h : ∀ w ∈ cells, Word.Fits w) (number : Nat) :
    ofLines number (cells.map (Numeral.padded 3)) = { cells := cells } := by
  induction cells generalizing number with
  | nil => rfl
  | cons w rest ih =>
    rw [List.forall_mem_cons] at h
    rw [List.map_cons, ofLines_cons, ProgramLine.ofText_of_denotes (Numeral.denotes_padded 3 w) h.1,
      addLine_cell, ih h.2]

/-- **What is written is read back**, with nothing left out. -/
theorem parse_write {cells : List Int} (h : ∀ w ∈ cells, Word.Fits w) :
    parse (write cells) = { cells := cells } := by
  have hheading : ProgramLine.ofText "// LMC program".toList = .comment := by decide
  have hcount : ProgramLine.ofText ("// " ++ Numeral.plain cells.length ++ " cells").toList =
      .comment := by
    have hline := ProgramLine.ofText_slashes (d := 's') (by decide)
      (' ' :: (Numeral.plain cells.length).toList ++ " cell".toList)
    simpa using hline
  have hblank : ProgramLine.ofText [] = .comment := rfl
  rw [write_eq, parse_join fun line => feed_not_mem_writtenLines, writtenLines]
  simp only [ofLines_cons, hheading, hcount, hblank, addLine_comment, ofLines_map_padded h]

/-- The words that are read fit the adder. -/
theorem fits_of_mem_ofLines {number : Nat} {lines : List (List Char)} {w : Int}
    (h : w ∈ (ofLines number lines).cells) : Word.Fits w := by
  induction lines generalizing number with
  | nil => cases h
  | cons line rest ih =>
    rw [ofLines_cons] at h
    cases hline : ProgramLine.ofText line with
    | comment =>
      rw [hline] at h
      exact ih h
    | malformed text =>
      rw [hline] at h
      exact ih h
    | cell v =>
      rw [hline, addLine_cell] at h
      rcases List.mem_cons.1 h with rfl | h
      · exact ProgramLine.fits_of_ofText hline
      · exact ih h

/-- **Program text there and back.** A program that is written is read back as it was, from the text
and from its bytes, and nothing is left out. So no two programs are written alike, and to write what
was read from any text is to bring the text into a form that reading and writing leave alone. -/
theorem write_roundtrip :
    (∀ cells : List Int, (∀ w ∈ cells, Word.Fits w) →
      parse (write cells) = { cells := cells, skipped := [] } ∧
        read (Text.encode (write cells).toList) = some { cells := cells, skipped := [] }) ∧
    (∀ cells cells' : List Int, (∀ w ∈ cells, Word.Fits w) → (∀ w ∈ cells', Word.Fits w) →
      write cells = write cells' → cells = cells') ∧
    ∀ source : String,
      write (parse (write (parse source).cells)).cells = write (parse source).cells := by
  refine ⟨fun cells h => ⟨parse_write h, ?_⟩, fun cells cells' h h' hwrite => ?_, fun source => ?_⟩
  · rw [read_encode, parse_write h]
  · have hparse : parse (write cells) = parse (write cells') := congrArg parse hwrite
    rw [parse_write h, parse_write h'] at hparse
    exact congrArg ProgramText.cells hparse
  · have hfits : ∀ w ∈ (parse source).cells, Word.Fits w := fun w => fits_of_mem_ofLines
    rw [parse_write hfits]

/-- The ends of the range, and words whose sign and zeros share a width of three. -/
theorem write_roundtrip_of_extremes :
    let cells : List Int := [-9223372036854775808, -7, 0, 42, 9223372036854775807]
    let text := "// LMC program\n// 5 cells\n\n-9223372036854775808\n-07\n000\n042\n" ++
      "9223372036854775807\n"
    (∀ w ∈ cells, Word.Fits w) ∧ write cells = text ∧
      parse (write cells) = { cells := cells, skipped := [] } ∧
      read (Text.encode (write cells).toList) = some { cells := cells, skipped := [] } ∧
      write cells ≠ write [-7, 0, 42] := by
  intro cells text
  have hfits : ∀ w ∈ cells, Word.Fits w := by decide
  have hfits' : ∀ w ∈ [-7, 0, 42], Word.Fits w := by decide
  obtain ⟨hback, hinjective, -⟩ := write_roundtrip
  exact ⟨hfits, by decide +kernel, (hback cells hfits).1, (hback cells hfits).2,
    fun h => absurd (hinjective cells [-7, 0, 42] hfits hfits' h) (by decide)⟩

end ProgramText

end LittleMan
