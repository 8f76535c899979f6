import LittleMan.Diagnostic
import LittleMan.Instruction
import LittleMan.Text.Layout

/-!
# The log

Records of what happens, each with a level. A record is kept as its cause; the wording is made when
it is shown. A log shows the records up to its own level of detail.

## Main definitions

* `Level`, `Level.ofFlags` — levels of detail, and the one that command-line flags ask for
* `Record`, `Record.level`, `Record.text` — what can be recorded
* `Event`, `Event.shown` — a record, or a text that is shown at every level
-/

namespace LittleMan

/-- Levels of detail, from the most important records to the finest. -/
inductive Level
  | error | warn | info | debug | trace
  deriving DecidableEq, Inhabited

namespace Level

/-- The place of a level, the most important first. -/
def rank : Level → Nat
  | error => 0
  | warn => 1
  | info => 2
  | debug => 3
  | trace => 4

/-- The name of a level. -/
def name : Level → String
  | error => "ERROR"
  | warn => "WARN"
  | info => "INFO"
  | debug => "DEBUG"
  | trace => "TRACE"

/-- The word in front of a record of this level. -/
def tag : Level → String
  | error => "error"
  | warn => "warning"
  | info => "info"
  | debug => "debug"
  | trace => "trace"

/-- The level that flags ask for: errors only when quiet, or else one level more than warnings for
each verbose flag. -/
def ofFlags (verbose : Nat) (quiet : Bool) : Level :=
  if quiet then error
  else
    match verbose with
    | 0 => warn
    | 1 => info
    | 2 => debug
    | _ => trace

/-- Whether a log of level `limit` shows a record of level `l`. -/
def shows (limit l : Level) : Bool :=
  l.rank ≤ limit.rank

end Level

/-- Something worth recording. -/
inductive Record
  /-- A line of program text could not be used. -/
  | skippedLine (number : Nat) (text : String)
  /-- A program file was read. -/
  | loaded (count : Nat) (path : String)
  /-- Not all words of a program fit in memory. -/
  | truncated (written total start : Nat)
  /-- An instruction was fetched, with the accumulator before it is carried out. -/
  | fetched (pc : Nat) (raw : Int) (acc : Int)
  /-- A machine reported a condition. -/
  | diagnosed (d : Diagnostic)
  /-- Prompting was asked for where nobody can be prompted. -/
  | cannotPrompt
  deriving DecidableEq

namespace Record

/-- The level of a record. A condition is an error if it stopped the machine. -/
def level : Record → Level
  | skippedLine _ _ => .warn
  | loaded _ _ => .info
  | truncated _ _ _ => .debug
  | fetched _ _ _ => .trace
  | diagnosed d => if d.isFatal then .error else .warn
  | cannotPrompt => .warn

/-- The wording of a record. -/
def text : Record → String
  | skippedLine number text =>
    "line " ++ Numeral.plain number ++ ": skipping `" ++ text ++ "`, not an integer"
  | loaded count path => "loaded " ++ Numeral.plain count ++ " cells from " ++ path
  | truncated written total start =>
    "program truncated: " ++ Numeral.plain written ++ " of " ++ Numeral.plain total
      ++ " values fit from " ++ Numeral.wide 2 start
  | fetched pc raw acc =>
    Numeral.wide 2 pc ++ ": " ++ Numeral.wide 3 raw ++ " " ++ (Instruction.decode raw).detail
      ++ " acc=" ++ Numeral.plain acc
  | diagnosed d => d.text
  | cannotPrompt =>
    "cannot prompt for input inside the debugger, starved INP will only warn"

/-- The line of a record in the log. -/
def line (r : Record) : String :=
  r.level.tag ++ ": " ++ r.text ++ "\n"

end Record

/-- What an operation makes known while it goes on. -/
inductive Event
  /-- A record for the log. -/
  | record (r : Record)
  /-- A text that is shown whatever the level. -/
  | shown (text : String)
  deriving DecidableEq

/-- What a log of level `limit` shows of an event. -/
def Event.shownAt (limit : Level) : Event → String
  | .record r => if limit.shows r.level then r.line else ""
  | .shown text => text

end LittleMan
