import LittleMan.Proofs.LineGrammar
import LittleMan.Proofs.Machine.Questions
import LittleMan.Proofs.Machine.Restart

/-!
# Prompted input

The run command can prompt for input. Each line that is typed stands for a value: for the word on
it, or for zero if there is none that fits, be it that the line is blank, holds something else, or
holds a number that is too large. So a prompt is a tape with the values of all lines on it.

Too large means too large for the adder. A number that the adder can hold but the words of the
machine cannot is not zero; it is clamped, as any value from a provider, and the clamping is
reported.

## Main definitions

* `Typed` — a line and the value that it stands for

## Main results

* `forall₂_typed_iff` — lines stand for one list of values
* `gives_typedLines` — a prompt gives the values of the lines
* `Source.provider_build`, `Source.reachable_build` — the machine of the run command
* `Invocation.run_prompted` — a prompt is a tape with the values of the lines
-/

namespace LittleMan

/-! ### Typed lines -/

/-- The value that a typed line stands for. -/
inductive Typed (line : List Char) : Int → Prop
  /-- A numeral, possibly between blanks, stands for the word that it denotes, if the word fits. -/
  | word {numeral : List Char} {w : Int} (h : Text.Trims line numeral)
      (hw : Numeral.Denotes numeral w) (hfits : Word.Fits w) : Typed line w
  /-- Anything else stands for zero. -/
  | other {content : List Char} (h : Text.Trims line content)
      (hnone : ∀ w, Numeral.Denotes content w → ¬Word.Fits w) : Typed line 0

theorem typed_iff {line : List Char} {w : Int} :
    Typed line w ↔ Provider.lineValue (String.ofList line) = w := by
  have hvalue : Provider.lineValue (String.ofList line) =
      ((Word.read (Text.trim line)).toOption).getD 0 := by
    rw [Provider.lineValue, Provider.numeral?, String.toList_ofList]
  rw [hvalue]
  constructor
  · rintro (⟨h, hw, hfits⟩ | ⟨h, hnone⟩)
    · rw [Text.trim_eq_iff_trims.2 h, Word.read_eq_ok_iff.2 ⟨hw, hfits⟩]
      rfl
    · rw [Text.trim_eq_iff_trims.2 h]
      cases hread : Word.read _ with
      | error e => rfl
      | ok w =>
        obtain ⟨hw, hfits⟩ := Word.read_eq_ok_iff.1 hread
        exact absurd hfits (hnone w hw)
  · rintro rfl
    have htrims := Text.trims_trim line
    cases hread : Word.read (Text.trim line) with
    | ok w =>
      obtain ⟨hw, hfits⟩ := Word.read_eq_ok_iff.1 hread
      exact .word htrims hw hfits
    | error e =>
      refine .other htrims fun w hw hfits => ?_
      rw [Word.read_eq_ok_iff.2 ⟨hw, hfits⟩] at hread
      cases hread

/-- **Lines stand for one list of values.** -/
theorem forall₂_typed_iff {lines : List (List Char)} {values : List Int} :
    List.Forall₂ Typed lines values ↔
      lines.map (fun line => Provider.lineValue (String.ofList line)) = values := by
  have htyped : Typed = fun line w => Provider.lineValue (String.ofList line) = w :=
    funext fun line => funext fun w => propext typed_iff
  rw [htyped, ← List.forall₂_map_left_iff, List.forall₂_eq_eq_eq]

/-- The lines that can be typed are those of the text, and all of them are text. -/
theorem typedLines_encode (text : List Char) :
    typedLines (Text.encode text) =
      ((Text.lines text).map fun line => some (String.ofList line)).toArray := by
  have hdecode : ((fun line => (Text.decode line).map String.ofList) ∘ Text.encode) =
      fun line => some (String.ofList line) :=
    funext fun line => congrArg (Option.map String.ofList) (Text.decode_encode line)
  rw [typedLines, Text.byteLines_encode, List.map_map, hdecode]

namespace Provider

theorem afterAsking_prompt (lines : Array (Option String)) (asked n : Nat) :
    (prompt lines asked).afterAsking n = prompt lines (asked + n) :=
  afterAsking_of_counts (fun _ => rfl) asked n

end Provider

/-- **A prompt gives the values of the lines**, and then nothing. -/
theorem gives_typedLines {text : List Char} {lines : List (List Char)} {values : List Int}
    (hcut : Text.Cut text lines) (hvalues : List.Forall₂ Typed lines values) :
    (Provider.prompt (typedLines (Text.encode text)) 0).Gives values := by
  rw [typedLines_encode, Text.lines_eq_iff_cut.2 hcut]
  rw [forall₂_typed_iff] at hvalues
  subst hvalues
  intro n
  rw [Provider.afterAsking_prompt, Nat.zero_add, Provider.ask, List.getElem?_toArray,
    List.getElem?_map, List.getElem?_map]
  cases lines[n]? <;> rfl

/-! ### The machine of the run command -/

namespace Source

theorem provider_load (inputs : List Int) (m : Machine) (s : Source) :
    (s.load inputs m).2.provider = m.provider := by
  cases s with
  | cells ws => rfl
  | sample s =>
    exact Machine.provider_of_not_continues (c := .operation (.prepare s _)) id rfl

theorem reachable_load (inputs : List Int) {m : Machine} (hm : m.Reachable) (s : Source) :
    (s.load inputs m).2.Reachable := by
  cases s with
  | cells ws => exact (hm.perform (.loadAt 0 ws)).perform (.queue inputs)
  | sample s => exact hm.perform (.prepare s _)

variable (s : Source) (options : Command.MachineOptions) (interactive : Bool)
  (lines : Array (Option String))

/-- The provider is the one that was chosen. -/
theorem provider_build :
    (s.build options interactive lines).2.provider =
      .ofChoice (emptyInput options interactive).1 lines :=
  provider_load _ _ s

theorem reachable_build : (s.build options interactive lines).2.Reachable :=
  reachable_load _ ((Machine.reachable_new _).perform (.attach _)) s

end Source

namespace Invocation

open Command (MachineOptions RunOptions)

/-- A program that does not come from standard input leaves all lines to the prompts. -/
theorem linesLeft_of_ne {i : Invocation} {program : String} (hi : i.action.program? = some program)
    (horigin : Origin.ofName program ≠ .standardInput) (stdin : List UInt8) :
    i.linesLeft stdin = typedLines stdin := by
  have hneed : i.need = (Origin.ofName program).need := by
    rw [need, origin?, hi, Option.map_some]
  rw [linesLeft, hneed]
  cases horigin' : Origin.ofName program with
  | standardInput => exact absurd horigin' horigin
  | _ => rfl

/-- The machine that a run command executes is one that was built from a program. -/
theorem exists_build_of_begin {i : Invocation} {program : String} {machine : MachineOptions}
    {run options : RunOptions} {content : Except FileError (List UInt8)}
    {lines : Array (Option String)} {told : Transcript} {m : Machine}
    (hi : i.action = .run program machine run)
    (h : i.begin content lines = .execute told m options) :
    ∃ s : Source, m = (s.build machine true lines).2 := by
  simp only [begin, hi] at h
  obtain ⟨before, s, -, hnext⟩ := exists_of_withProgram h
  cases hnext
  exact ⟨s, rfl⟩

/-- **A prompt is a tape with the values of the lines.** Run a program that does not come from
standard input, on any machine that prompts, with any queued input, while any text is typed. The
text is cut into lines, and each line stands for a value. The run leaves what it would leave with a
tape of these values in place of the prompt, and so does any number of steps, with the same answers.
By then both have been asked once for each input instruction that found the queue empty. The `j`-th
of these, counted from zero, reads line `j`: it takes its value, or else, past the last line, it
reports that there is nothing and leaves the accumulator alone. No other instruction reads a
line. -/
theorem run_prompted {i : Invocation} {program : String} {machine : MachineOptions}
    {run options : RunOptions} {stdin : List UInt8} {t : FileTree} {text : List Char}
    {told : Transcript} {m : Machine} (hi : i.action = .run program machine run)
    (horigin : Origin.ofName program ≠ .standardInput)
    (hprompt : (emptyInput machine true).1 = .prompt) (htext : Text.decode stdin = some text)
    (hbegin : i.begin (i.fetch stdin t) (i.linesLeft stdin) = .execute told m options) :
    ∃ lines values, Text.Cut text lines ∧ List.Forall₂ Typed lines values ∧
      let typed := typedLines stdin
      let taped := m.attach (.tape values.toArray 0)
      let left := (Execution.run options.trace options.maxCycles m).2
      let asked := m.questions (Execution.allowance options.maxCycles)
      left.provider = .prompt typed asked ∧
      (Execution.run options.trace options.maxCycles taped).2 =
        left.attach (.tape values.toArray asked) ∧
      ∀ n,
        taped.results n = m.results n ∧
        taped.after n = (m.after n).attach (.tape values.toArray (m.questions n)) ∧
        (m.after n).provider = .prompt typed (m.questions n) ∧
        (∀ j (before : Machine), ((m.course n).filter Machine.mustAsk)[j]? = some before →
          before.provider = .prompt typed j ∧ before.step.2.provider = .prompt typed (j + 1) ∧
            before.TakesAnswer values[j]? before.step.2) ∧
        ∀ before ∈ m.course n, before.mustAsk = false →
          before.step.2.provider = before.provider := by
  have hcut := Text.cut_lines text
  have hvalues := forall₂_typed_iff.2 (rfl : (Text.lines text).map _ = _)
  rw [linesLeft_of_ne (by rw [hi]; rfl) horigin] at hbegin
  obtain ⟨s, rfl⟩ := exists_build_of_begin hi hbegin
  have hm := (s.reachable_build machine true (typedLines stdin)).consistent
  have hprovider := s.provider_build machine true (typedLines stdin)
  rw [hprompt, Provider.ofChoice] at hprovider
  generalize (s.build machine true (typedLines stdin)).2 = m at hm hprovider
  have hasked (k : Nat) : m.provider.afterAsking k = .prompt (typedLines stdin) k := by
    rw [hprovider, Provider.afterAsking_prompt, Nat.zero_add]
  have hgives := gives_typedLines hcut hvalues
  rw [← Text.eq_encode_of_decode htext, ← hprovider] at hgives
  have hafter := fun n => hm.after_attach ((Provider.gives_tape _).answersLike hgives) n
  simp only [Provider.afterAsking_tape, Nat.zero_add] at hafter
  refine ⟨_, _, hcut, hvalues, ?_, ?_, fun n => ⟨(hafter n).1, (hafter n).2, ?_,
    fun j before hj => ?_, fun before hbefore => hm.provider_of_mem_course hbefore⟩⟩
  · rw [Execution.run_snd, hm.provider_after, hasked]
  · rw [Execution.run_snd, Execution.run_snd]
    exact (hafter _).2
  · rw [hm.provider_after, hasked]
  · have hanswer := hm.takesAnswer hj
    rwa [hasked, hasked, ← hasked, hgives j, hasked] at hanswer

/-- A program that copies its input over and over, while six lines are typed, the last of them
without an end. They hold a word between blanks, nothing, something else, a number that is too large
for the adder, one that is too large for the words of the machine, and a negative word. The seventh
input instruction finds nothing. -/
theorem run_prompted_of_six_lines :
    let text := " 7 \n\nx\n9223372036854775808\n4294967296\n-3".toList
    let copy := Text.encode "901\n902\n600".toList
    let machine : MachineOptions := { variant := .lmc32 }
    let run : RunOptions := { maxCycles := 20 }
    let i : Invocation := ⟨.warn, .run "p" machine run⟩
    let m := ((Source.cells [901, 902, 600]).build machine true (typedLines (Text.encode text))).2
    let left := (Execution.run false 20 m).2
    (∃ told, i.begin (i.fetch (Text.encode text) ⟨[(["p"], .file copy)]⟩)
      (i.linesLeft (Text.encode text)) = .execute told m run) ∧
    (Execution.run false 20 (m.attach (.tape #[7, 0, 0, 0, 0x100000000, -3] 0))).2 =
      left.attach (.tape #[7, 0, 0, 0, 0x100000000, -3] 7) ∧
    left.output = #[7, 0, 0, 0, 0x7FFFFFFF, -3, -3] ∧
    left.diagnostics = #[.valueClamped 0x100000000 0x7FFFFFFF, .inputStarved 0] := by
  intro text copy machine run i m left
  -- paths are split by a recursion that does not reduce by itself
  have hnames : FileTree.names "p" = ["p"] := by
    rw [FileTree.names, String.splitOn, if_neg (by decide), String.splitOnAux, if_neg (by decide),
      if_neg (by decide), String.splitOnAux, if_pos (by decide)]
    decide
  have hfetch : i.fetch (Text.encode text) ⟨[(["p"], .file copy)]⟩ = .ok copy := by
    change FileTree.read _ "p" = _
    rw [FileTree.read, FileTree.locate, hnames]
    rfl
  have hfind : (Origin.ofName "p").find "p" (.ok copy) =
      ([.logged (.loaded 3 "p")], some (.cells [901, 902, 600])) := by decide +kernel
  have hbegin := begin_of_find (i := i) rfl hfind (typedLines (Text.encode text))
  rw [← hfetch] at hbegin
  obtain ⟨lines, values, hcut, hvalues, -, hleft, -⟩ :=
    run_prompted (i := i) rfl (by decide) rfl (Text.decode_encode text) hbegin
  have hlist : values = [7, 0, 0, 0, 0x100000000, -3] := by
    rw [← forall₂_typed_iff.1 hvalues, ← Text.lines_eq_iff_cut.2 hcut]
    decide +kernel
  have hasked : m.questions (Execution.allowance 20) = 7 := by decide +kernel
  rw [hlist] at hleft
  change _ = left.attach (.tape _ (m.questions (Execution.allowance 20))) at hleft
  rw [hasked] at hleft
  exact ⟨⟨_, hbegin⟩, hleft, by decide +kernel, by decide +kernel⟩

end Invocation

end LittleMan
