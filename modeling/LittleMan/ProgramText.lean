import LittleMan.Text.Blank
import LittleMan.Text.Encoding
import LittleMan.Text.Layout
import LittleMan.Text.Lines
import LittleMan.Word

/-!
# Program text

A program is written as one word a line. Blank lines and lines that start with two slashes are
comments. A line that is neither a comment nor a numeral is left out of the program and listed
with its number, so that nothing goes missing in silence.

A program is read from a text, or from a byte stream whose lines are decoded one by one and put
together to a text again. The stream is refused as a whole if one of its lines is not well formed
UTF-8.

## Main definitions

* `ProgramText` — what was read: cells and skipped lines
* `ProgramText.parse`, `ProgramText.read` — from a text, from a byte stream
* `ProgramText.streamText` — the text of a byte stream
* `ProgramText.write` — the text of a list of cells
-/

namespace LittleMan

/-- A line that was left out. -/
structure SkippedLine where
  /-- The number of the line, from 1. -/
  number : Nat
  /-- The line without the blanks around it. -/
  text : String
  deriving DecidableEq

/-- What was read from program text. -/
structure ProgramText where
  /-- The words of the program in order. -/
  cells : List Int := []
  /-- The lines that were left out, in order. -/
  skipped : List SkippedLine := []
  deriving DecidableEq, Inhabited

/-- What a line of program text contributes. -/
inductive ProgramLine
  /-- Nothing: the line is blank or a comment. -/
  | comment
  /-- A word of the program. -/
  | cell (w : Int)
  /-- A text that could not be used. -/
  | malformed (text : List Char)
  deriving DecidableEq

/-- Read one line. -/
def ProgramLine.ofText (line : List Char) : ProgramLine :=
  let text := Text.trim line
  if text.isEmpty || ['/', '/'].isPrefixOf text then comment
  else
    match Word.read text with
    | .ok w => cell w
    | .error _ => malformed text

namespace ProgramText

/-- A program with one more line, numbered `number`, in front. -/
def addLine (number : Nat) (line : ProgramLine) (later : ProgramText) : ProgramText :=
  match line with
  | .comment => later
  | .cell w => { later with cells := w :: later.cells }
  | .malformed text =>
    { later with skipped := ⟨number, String.ofList text⟩ :: later.skipped }

/-- Read lines that are numbered from `number` on. -/
def ofLines (number : Nat) : List (List Char) → ProgramText
  | [] => {}
  | line :: rest => addLine number (.ofText line) (ofLines (number + 1) rest)

/-- Read a program from text. -/
def parse (source : String) : ProgramText :=
  ofLines 1 (Text.lines source.toList)

/-- The text of a byte stream that is read line by line, with a line feed after each of them. There
is none if a line is not well formed UTF-8. -/
def streamText (bytes : List UInt8) : Option String :=
  ((Text.byteLines bytes).mapM Text.decode).map fun lines =>
    String.ofList (lines.flatMap fun line => line ++ ['\n'])

/-- Read a program from a byte stream. There is no answer if the stream has no text. -/
def read (bytes : List UInt8) : Option ProgramText :=
  (streamText bytes).map parse

/-- The wording when a byte stream is not well formed. -/
def notTextMessage : String :=
  "stream did not contain valid UTF-8"

/-- The line of a word in program text, without its line feed. -/
def cellLine (w : Int) : String :=
  Numeral.wide 3 w

/-- The text of a program: a heading and one word a line. -/
def write (cells : List Int) : String :=
  "// LMC program\n// " ++ Numeral.plain cells.length ++ " cells\n\n"
    ++ Text.concat (cells.map fun w => cellLine w ++ "\n")

@[simp] theorem ofLines_nil (number : Nat) : ofLines number [] = {} := rfl

@[simp] theorem ofLines_cons (number : Nat) (line : List Char) (rest : List (List Char)) :
    ofLines number (line :: rest) =
      addLine number (.ofText line) (ofLines (number + 1) rest) := rfl

@[simp] theorem addLine_comment (number : Nat) (later : ProgramText) :
    addLine number .comment later = later := rfl

@[simp] theorem addLine_cell (number : Nat) (w : Int) (later : ProgramText) :
    addLine number (.cell w) later = { later with cells := w :: later.cells } := rfl

@[simp] theorem addLine_malformed (number : Nat) (text : List Char) (later : ProgramText) :
    addLine number (.malformed text) later =
      { later with skipped := ⟨number, String.ofList text⟩ :: later.skipped } := rfl

end ProgramText

end LittleMan
