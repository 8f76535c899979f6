import LittleMan.Text.Blank
import LittleMan.Word

/-!
# Input providers

A provider is asked for a value when an input instruction finds the queue empty. It answers with a
value or with nothing, and asking it may move it on. All of it is data: a provider that reads lines
holds the lines and the place it has reached. A source of any other kind is an oracle, known only by
the sequence of its answers.

## Main definitions

* `Provider` — the kinds of provider
* `Provider.ask` — one question: the answer, and the provider afterwards
* `Provider.lineValue` — the value of a line that was typed in
-/

namespace LittleMan

/-- Where a value comes from when the queue is empty. -/
inductive Provider
  /-- Nothing ever comes. -/
  | silent
  /-- The same value every time. -/
  | fixed (value : Int)
  /-- The values of a list in order, then nothing. `asked` counts the questions so far. -/
  | tape (values : Array Int) (asked : Nat)
  /-- A value from each line that is typed in, then nothing. A line that is not text is `none`. -/
  | prompt (lines : Array (Option String)) (asked : Nat)
  /-- Whatever else answers: `answers n` is what it says after `n` earlier questions. -/
  | oracle (answers : Nat → Option Int) (asked : Nat)
  deriving Inhabited

namespace Provider

/-- The value of a typed line, if its trimmed text is a numeral. -/
def numeral? (line : String) : Option Int :=
  (Word.read (Text.trim line.toList)).toOption

/-- The value of a typed line. A line that is no numeral counts as zero. -/
def lineValue (line : String) : Int :=
  (numeral? line).getD 0

/-- Ask for one value. -/
def ask : Provider → Option Int × Provider
  | silent => (none, silent)
  | fixed value => (some value, fixed value)
  | tape values asked => (values[asked]?, tape values (asked + 1))
  | prompt lines asked =>
    (lines[asked]?.bind fun line => line.map lineValue, prompt lines (asked + 1))
  | oracle answers asked => (answers asked, oracle answers (asked + 1))

/-- The line that the next question will read, if it reads one: `none` past the last line,
`some none` for a line that is not text. -/
def nextLine? : Provider → Option (Option String)
  | prompt lines asked => lines[asked]?
  | _ => none

/-- What is shown when a question is asked. -/
def question? : Provider → Option String
  | prompt _ _ => some "INPUT required: "
  | _ => none

/-- What is shown about the answer to a question. -/
def comment? (p : Provider) : Option String :=
  match p.nextLine? with
  | some (some line) => if (numeral? line).isNone then some "Invalid input, using 0\n" else none
  | _ => none

@[simp] theorem ask_silent : ask silent = (none, silent) := rfl

@[simp] theorem ask_fixed (w : Int) : ask (fixed w) = (some w, fixed w) := rfl

@[simp] theorem ask_tape (values : Array Int) (asked : Nat) :
    ask (tape values asked) = (values[asked]?, tape values (asked + 1)) := rfl

@[simp] theorem ask_oracle (answers : Nat → Option Int) (asked : Nat) :
    ask (oracle answers asked) = (answers asked, oracle answers (asked + 1)) := rfl

end Provider

end LittleMan
