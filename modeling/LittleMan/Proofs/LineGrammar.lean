import Mathlib.Data.List.Forall2
import Mathlib.Data.List.TakeWhile
import LittleMan.Proofs.ProgramText

/-!
# The grammar of program text

Program text as it is written down, apart from how it is read. A text is cut into lines, a line is
trimmed, and what is left of it stands for nothing, for a word of the program or for a text that
could not be used. Each of the three is a relation here that says nothing of the way from one to the
other; reading turns out to be the one function that fits them.

Every text is program text, whatever its characters are. So it is accounted for as a whole: each of
its lines is a comment, a word or a skipped line, and the skipped lines are known by their numbers.

## Main definitions

* `Text.Cut` — a text and its lines
* `Text.Trims` — a line and what is left of it without the blanks at its ends
* `ProgramLine.Reads` — a line and what it stands for

## Main results

* `Text.lines_eq_iff_cut`, `Text.trim_eq_iff_trims`, `ProgramLine.ofText_eq_iff_reads` — the
  functions that fit the relations
* `ProgramText.ofLines_eq` — what is read is what the lines stand for, in order
* `ProgramText.parse_accounted` — every line is accounted for
-/

namespace LittleMan

namespace Text

/-! ### Lines -/

/-- The lines of a text. The text before a line feed is a line, and so is what stands behind the
last of them unless that is nothing. A carriage return right before a line feed belongs to the end
of the line. -/
inductive Cut : List Char → List (List Char) → Prop
  /-- Nothing is left, and that is no line. -/
  | nothing : Cut [] []
  /-- The last line, if nothing ends it. -/
  | unended {line : List Char} (hne : line ≠ []) (h : '\n' ∉ line) : Cut line [line]
  /-- A line that is ended by a line feed alone. -/
  | feed {line rest : List Char} {later : List (List Char)} (h : '\n' ∉ line)
      (hreturn : line.getLast? ≠ some '\r') (hrest : Cut rest later) :
      Cut (line ++ '\n' :: rest) (line :: later)
  /-- A line that is ended by a carriage return and a line feed. -/
  | returnFeed {line rest : List Char} {later : List (List Char)} (h : '\n' ∉ line)
      (hrest : Cut rest later) : Cut (line ++ '\r' :: '\n' :: rest) (line :: later)

theorem lines_append_feed_cons {line : List Char} (h : '\n' ∉ line)
    (hreturn : line.getLast? ≠ some '\r') (rest : List Char) :
    lines (line ++ '\n' :: rest) = line :: lines rest := by
  rw [lines, linesBy_append_feed_cons h, dropReturn, if_neg hreturn]
  rfl

theorem lines_append_return_feed_cons {line : List Char} (h : '\n' ∉ line) (rest : List Char) :
    lines (line ++ '\r' :: '\n' :: rest) = line :: lines rest := by
  have hline : '\n' ∉ line ++ ['\r'] := by simpa using h
  rw [List.append_cons, lines, linesBy_append_feed_cons hline, dropReturn,
    if_pos List.getLast?_concat, List.dropLast_concat]
  rfl

/-- The lines of a text that are cut are those that the grammar allows. -/
theorem cut_lines (s : List Char) : Cut s (lines s) := by
  induction s using line_induction '\n' with
  | unended s hfeed =>
    by_cases hne : s = []
    · rw [hne]
      exact .nothing
    · rw [lines, linesBy_of_feed_not_mem hne hfeed]
      exact .unended hne hfeed
  | ended line rest hline hrest =>
    by_cases hreturn : line.getLast? = some '\r'
    · obtain ⟨start, rfl⟩ := List.getLast?_eq_some_iff.1 hreturn
      have hstart : '\n' ∉ start := fun h => hline (List.mem_append_left _ h)
      rw [← List.append_cons, lines_append_return_feed_cons hstart]
      exact .returnFeed hstart hrest
    · rw [lines_append_feed_cons hline hreturn]
      exact .feed hline hreturn hrest

/-- **A text is cut in one way.** -/
theorem lines_eq_iff_cut {s : List Char} {ls : List (List Char)} : lines s = ls ↔ Cut s ls := by
  constructor
  · rintro rfl
    exact cut_lines s
  · intro h
    induction h with
    | nothing => rfl
    | unended hne hfeed => exact linesBy_of_feed_not_mem hne hfeed
    | feed hfeed hreturn _ ih => rw [lines_append_feed_cons hfeed hreturn, ih]
    | returnFeed hfeed _ ih => rw [lines_append_return_feed_cons hfeed, ih]

/-- A text has no more lines than characters. -/
theorem Cut.length_le {s : List Char} {ls : List (List Char)} (h : Cut s ls) :
    ls.length ≤ s.length := by
  induction h with
  | nothing => exact Nat.le_refl 0
  | unended hne _ => exact List.length_pos_iff.2 hne
  | feed _ _ _ ih | returnFeed _ _ ih =>
    simp only [List.length_cons, List.length_append]
    omega

/-! ### Trimming -/

/-- `Trims s t` says that `t` is `s` without the blanks at its ends: only blanks are missing, and
`t` neither begins nor ends with one. Which characters these are is said in `isBlank_iff_toNat`. -/
def Trims (s t : List Char) : Prop :=
  ∃ before after, s = before ++ t ++ after ∧
    (∀ c ∈ before, isBlank c = true) ∧ (∀ c ∈ after, isBlank c = true) ∧
    (∀ c, t.head? = some c → isBlank c = false) ∧ ∀ c, t.getLast? = some c → isBlank c = false

theorem exists_append_trimStart (s : List Char) :
    ∃ before, s = before ++ trimStart s ∧ ∀ c ∈ before, isBlank c = true :=
  ⟨s.takeWhile isBlank, List.takeWhile_append_dropWhile.symm, fun _ hc => List.mem_takeWhile_imp hc⟩

theorem exists_trimEnd_append (s : List Char) :
    ∃ after, s = trimEnd s ++ after ∧ ∀ c ∈ after, isBlank c = true := by
  obtain ⟨before, hs, hblank⟩ := exists_append_trimStart s.reverse
  refine ⟨before.reverse, ?_, fun c hc => hblank c (List.mem_reverse.1 hc)⟩
  have hreverse := congrArg List.reverse hs
  rwa [List.reverse_reverse, List.reverse_append] at hreverse

theorem head?_trimStart {s : List Char} {c : Char} (h : (trimStart s).head? = some c) :
    isBlank c = false := by
  have hnot := List.head?_dropWhile_not isBlank s
  rw [trimStart] at h
  rw [h] at hnot
  simpa using hnot

theorem getLast?_trimEnd {s : List Char} {c : Char} (h : (trimEnd s).getLast? = some c) :
    isBlank c = false := by
  rw [trimEnd, List.getLast?_reverse] at h
  exact head?_trimStart h

/-- What stands at the start of a text is still there when its end is trimmed, unless all of it is
gone. -/
theorem head?_of_head?_trimEnd {s : List Char} {c : Char} (h : (trimEnd s).head? = some c) :
    s.head? = some c := by
  obtain ⟨after, hs, -⟩ := exists_trimEnd_append s
  rw [hs, List.head?_append, h, Option.some_or]

theorem trims_trim (s : List Char) : Trims s (trim s) := by
  obtain ⟨before, hbefore, hblank⟩ := exists_append_trimStart s
  obtain ⟨after, hafter, hblank'⟩ := exists_trimEnd_append (trimStart s)
  refine ⟨before, after, ?_, hblank, hblank', fun c hc => ?_, fun c hc => getLast?_trimEnd hc⟩
  · rw [List.append_assoc, trim, ← hafter]
    exact hbefore
  · exact head?_trimStart (head?_of_head?_trimEnd hc)

theorem trimStart_of_head? {s : List Char} (h : ∀ c, s.head? = some c → isBlank c = false) :
    trimStart s = s := by
  cases s with
  | nil => rfl
  | cons c rest => exact trimStart_of_not_isBlank (h c rfl) rest

theorem trimEnd_append_of_blank {t after : List Char} (hafter : ∀ c ∈ after, isBlank c = true)
    (h : ∀ c, t.getLast? = some c → isBlank c = false) : trimEnd (t ++ after) = t := by
  have hblank : ∀ c ∈ after.reverse, isBlank c = true := fun c hc =>
    hafter c (List.mem_reverse.1 hc)
  have hstart : trimStart t.reverse = t.reverse :=
    trimStart_of_head? fun c hc => h c (by rwa [List.head?_reverse] at hc)
  rw [trimEnd, List.reverse_append, List.dropWhile_append_of_pos hblank, ← trimStart, hstart,
    List.reverse_reverse]

/-- **A line is trimmed in one way.** -/
theorem trim_eq_iff_trims {s t : List Char} : trim s = t ↔ Trims s t := by
  constructor
  · rintro rfl
    exact trims_trim s
  · rintro ⟨before, after, rfl, hbefore, hafter, hfirst, hlast⟩
    rw [trim, trimStart, List.append_assoc, List.dropWhile_append_of_pos hbefore, ← trimStart]
    by_cases ht : t = []
    · -- nothing is left between the blanks, and the first trimming takes all of them
      have hnothing : trimStart after = [] := List.dropWhile_eq_nil_iff.2 hafter
      rw [ht, List.nil_append, hnothing]
      rfl
    · have hhead : ∀ c, (t ++ after).head? = some c → isBlank c = false := by
        intro c hc
        rw [List.head?_append_of_ne_nil _ ht] at hc
        exact hfirst c hc
      rw [trimStart_of_head? hhead, trimEnd_append_of_blank hafter hlast]

end Text

namespace ProgramLine

/-! ### What a line stands for -/

/-- A trimmed line that stands for nothing: nothing is on it, or it begins with two slashes. -/
def IsComment (text : List Char) : Prop :=
  text = [] ∨ ['/', '/'] <+: text

/-- What a line of program text stands for. -/
inductive Reads (line : List Char) : ProgramLine → Prop
  /-- Comments and blank lines stand for nothing. -/
  | comment {text : List Char} (h : Text.Trims line text) (hcomment : IsComment text) :
      Reads line .comment
  /-- A numeral stands for the word that it denotes, if the word fits. -/
  | cell {text : List Char} {w : Int} (h : Text.Trims line text) (hw : Numeral.Denotes text w)
      (hfits : Word.Fits w) : Reads line (.cell w)
  /-- Any other line is left out, and what is left of it after trimming is kept. -/
  | malformed {text : List Char} (h : Text.Trims line text) (hcomment : ¬IsComment text)
      (hnumeral : ∀ w, Numeral.Denotes text w → ¬Word.Fits w) : Reads line (.malformed text)

theorem not_isComment_of_denotes {text : List Char} {w : Int} (h : Numeral.Denotes text w) :
    ¬IsComment text := by
  rintro (hnil | ⟨rest, rfl⟩)
  · exact h.ne_nil hnil
  · exact h.not_mem (c := '/') (by decide) (by decide) (by decide) List.mem_cons_self

theorem isComment_iff {text : List Char} :
    (text.isEmpty || ['/', '/'].isPrefixOf text) = true ↔ IsComment text := by
  rw [Bool.or_eq_true, List.isEmpty_iff, List.isPrefixOf_iff_prefix]
  rfl

/-- **A line stands for one thing.** -/
theorem ofText_eq_iff_reads {line : List Char} {part : ProgramLine} :
    ofText line = part ↔ Reads line part := by
  have htrims : Text.Trims line (Text.trim line) := Text.trims_trim line
  constructor
  · rintro rfl
    rw [ofText]
    split
    · next hcomment => exact .comment htrims (isComment_iff.1 hcomment)
    · next hcomment =>
      split
      · next w hread =>
        obtain ⟨hw, hfits⟩ := Word.read_eq_ok_iff.1 hread
        exact .cell htrims hw hfits
      · next e hread =>
        refine .malformed htrims (fun h => hcomment (isComment_iff.2 h)) fun w hw hfits => ?_
        have hok : Word.read (Text.trim line) = .ok w := Word.read_eq_ok_iff.2 ⟨hw, hfits⟩
        rw [hok] at hread
        cases hread
  · intro h
    cases h with
    | comment h hcomment =>
      obtain rfl := Text.trim_eq_iff_trims.2 h
      rw [ofText, if_pos (isComment_iff.2 hcomment)]
    | cell h hw hfits =>
      obtain rfl := Text.trim_eq_iff_trims.2 h
      have hread := Word.read_eq_ok_iff.2 ⟨hw, hfits⟩
      rw [ofText, if_neg (fun hc => not_isComment_of_denotes hw (isComment_iff.1 hc)), hread]
    | malformed h hcomment hnumeral =>
      obtain rfl := Text.trim_eq_iff_trims.2 h
      rw [ofText, if_neg (fun hc => hcomment (isComment_iff.1 hc))]
      cases hread : Word.read (Text.trim line) with
      | ok w =>
        obtain ⟨hw, hfits⟩ := Word.read_eq_ok_iff.1 hread
        exact absurd hfits (hnumeral w hw)
      | error e => rfl

/-- The word that a line stands for, if it stands for one. -/
def word? : ProgramLine → Option Int
  | cell w => some w
  | _ => none

/-- The entry of a line that could not be used, by the number of the line. -/
def skipped? (number : Nat) : ProgramLine → Option SkippedLine
  | malformed text => some ⟨number, String.ofList text⟩
  | _ => none

end ProgramLine

namespace ProgramText

/-! ### Programs -/

/-- **What is read is what the lines stand for**, in order, and numbered. -/
theorem ofLines_eq (number : Nat) (lines : List (List Char)) :
    ofLines number lines =
      { cells := (lines.map ProgramLine.ofText).filterMap ProgramLine.word?
        skipped := ((lines.map ProgramLine.ofText).zipIdx number).filterMap fun entry =>
          entry.1.skipped? entry.2 } := by
  induction lines generalizing number with
  | nil => rfl
  | cons line rest ih =>
    rw [ofLines_cons, ih, List.map_cons, List.zipIdx_cons]
    cases ProgramLine.ofText line <;> rfl

/-- Lines are numbered one by one. -/
theorem number_of_mem_ofLines {number : Nat} {lines : List (List Char)} {s : SkippedLine}
    (h : s ∈ (ofLines number lines).skipped) :
    number ≤ s.number ∧ s.number < number + lines.length := by
  rw [ofLines_eq] at h
  obtain ⟨⟨part, k⟩, hpart, hs⟩ := List.mem_filterMap.1 h
  obtain ⟨hle, hlt, -⟩ := List.mem_zipIdx hpart
  rw [List.length_map] at hlt
  cases part with
  | malformed text =>
    cases hs
    exact ⟨hle, hlt⟩
  | _ => cases hs

theorem pairwise_skipped_ofLines (number : Nat) (lines : List (List Char)) :
    (ofLines number lines).skipped.Pairwise fun s t => s.number < t.number := by
  induction lines generalizing number with
  | nil => exact .nil
  | cons line rest ih =>
    rw [ofLines_cons]
    cases ProgramLine.ofText line with
    | comment => exact ih (number + 1)
    | cell w => exact ih (number + 1)
    | malformed text =>
      refine List.pairwise_cons.2 ⟨fun s hs => ?_, ih (number + 1)⟩
      exact Nat.lt_of_succ_le (number_of_mem_ofLines hs).1

/-- The number of a skipped line is no greater than the length of its text. -/
theorem number_le_of_mem_parse {source : String} {s : SkippedLine}
    (h : s ∈ (parse source).skipped) : s.number ≤ source.length := by
  have hnumber := (number_of_mem_ofLines h).2
  have hlines := (Text.cut_lines source.toList).length_le
  rw [String.length_toList] at hlines
  omega

/-- A line is a word, a skipped line or a comment, and only one of them. -/
theorem length_addLine (number : Nat) (part : ProgramLine) (later : ProgramText) :
    (addLine number part later).cells.length + (addLine number part later).skipped.length +
      (if part = .comment then 1 else 0) = later.cells.length + later.skipped.length + 1 := by
  cases part with
  | comment => rfl
  | cell w =>
    show later.cells.length + 1 + later.skipped.length + 0 = _
    omega
  | malformed text =>
    show later.cells.length + (later.skipped.length + 1) + 0 = _
    omega

/-- No line is lost and none counts twice. -/
theorem length_ofLines (number : Nat) (lines : List (List Char)) :
    (ofLines number lines).cells.length + (ofLines number lines).skipped.length +
      (lines.map ProgramLine.ofText).countP (· = .comment) = lines.length := by
  induction lines generalizing number with
  | nil => rfl
  | cons line rest ih =>
    have hline := length_addLine number (.ofText line) (ofLines (number + 1) rest)
    have hrest := ih (number + 1)
    simp only [ofLines_cons, List.map_cons, List.countP_cons, List.length_cons, decide_eq_true_eq]
    omega

/-- **Every line of a text is accounted for.** Any text is cut into lines in one way, and each of
its lines stands for one thing. The words of the program are the words that lines stand for, in the
order of the lines; the skipped lines are those that could not be used, in order, each with its
number from 1 and with its trimmed text. So the numbers of the skipped lines increase, and the
words, the skipped lines and the comments are as many as the lines. -/
theorem parse_accounted (source : String) :
    ∃ (lines : List (List Char)) (parts : List ProgramLine),
      (∀ ls, Text.Cut source.toList ls ↔ ls = lines) ∧
      (∀ ps, List.Forall₂ ProgramLine.Reads lines ps ↔ ps = parts) ∧
      (parse source).cells = parts.filterMap ProgramLine.word? ∧
      (parse source).skipped =
        (parts.zipIdx 1).filterMap (fun entry => entry.1.skipped? entry.2) ∧
      (parse source).skipped.Pairwise (fun s t => s.number < t.number) ∧
      (parse source).cells.length + (parse source).skipped.length +
        parts.countP (· = .comment) = lines.length := by
  refine ⟨Text.lines source.toList, (Text.lines source.toList).map ProgramLine.ofText, ?_, ?_, ?_,
    ?_, pairwise_skipped_ofLines 1 _, length_ofLines 1 _⟩
  · intro ls
    rw [← Text.lines_eq_iff_cut, eq_comm]
  · intro ps
    have hreads : ProgramLine.Reads = fun line part => ProgramLine.ofText line = part := by
      funext line part
      exact propext ProgramLine.ofText_eq_iff_reads.symm
    rw [hreads, ← List.forall₂_map_left_iff, List.forall₂_eq_eq_eq, eq_comm]
  · rw [parse, ofLines_eq]
  · rw [parse, ofLines_eq]

/-- Numbers count all lines; a sign, zeros and blanks make no difference; 64 bits are the limit. -/
example : parse " +007\r\n\n//9\n\u00a09x\u3000\n9223372036854775808\r\n-9223372036854775808" =
    { cells := [7, -9223372036854775808]
      skipped := [⟨4, "9x"⟩, ⟨5, "9223372036854775808"⟩] } := by
  decide +kernel

end ProgramText

end LittleMan
