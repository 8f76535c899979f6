import LittleMan.Command.MailboxRange
import LittleMan.Command.Setting
import LittleMan.Log
import LittleMan.Text.Control
import LittleMan.Text.Lines
import LittleMan.Variant

/-!
# Arguments

The words of the command line are read from left to right. Flags may be joined behind one hyphen;
a value follows its setting as the next word, behind an equals sign, or right behind the letter.
After two hyphens every word is taken as it is.

A word that begins with a hyphen is not taken for a value, with two exceptions: a negative number
where input is expected, and any word where a range of mailboxes is expected. A value that was
taken as a word of its own is looked at only when the next setting or program comes, or at the end,
so that an unknown word in between is complained of first.

A complaint quotes what was said. A control sequence in a quotation is left out, and ends with it.

## Main definitions

* `Command.Action` — what is to be done
* `Command.Choices` — what was said so far
* `Command.UsageError` — what was wrong with it, with `UsageError.report`
* `Command.Detour` — why there is no action: help or the version was asked for, or something was
  wrong
* `Command.readArguments` — the words of the command line as an action
-/

namespace LittleMan

namespace Command

/-- What an input instruction does when it finds the queue empty. -/
inductive EmptyInput
  | warn | prompt | zero
  deriving DecidableEq

/-- The word for a choice. -/
def EmptyInput.word : EmptyInput → String
  | .warn => "warn"
  | .prompt => "prompt"
  | .zero => "zero"

/-- The choice of a word. -/
def EmptyInput.named? (s : String) : Option EmptyInput :=
  [EmptyInput.warn, .prompt, .zero].find? fun c => c.word = s

/-- What was wrong with the words of the command line. -/
inductive UsageError
  /-- The word stands where a verb is expected. -/
  | unrecognizedVerb (word : String)
  /-- Nothing is known of the word, or there is no place for it. -/
  | unexpected (word : String)
  /-- A program or a place to write to was not named. -/
  | incomplete
  /-- The value of a setting is missing. -/
  | missingValue (s : Setting)
  /-- The value of a setting is not one of its choices. -/
  | noChoice (value : String) (s : Setting)
  /-- The value of a setting cannot be read. -/
  | badValue (value : String) (s : Setting) (reason : String)
  /-- A flag was given a value. -/
  | surplusValue (value : String) (s : Setting)
  /-- A setting was given twice. -/
  | repeated (s : Setting)
  deriving DecidableEq

namespace UsageError

/-- The wording of a usage error and the text `after` it, with each quotation a part of its own. -/
def parts (after : String) : UsageError → List String
  | unrecognizedVerb word => ["error: unrecognized subcommand '", word, "'" ++ after]
  | unexpected word => ["error: unexpected argument '", word, "' found" ++ after]
  | incomplete => ["error: the following required arguments were not provided:" ++ after]
  | missingValue s =>
    ["error: a value is required for '", s.shown, "' but none was supplied" ++ after]
  | noChoice value s => ["error: invalid value '", value, "' for '", s.shown, "'" ++ after]
  | badValue value s reason =>
    ["error: invalid value '", value, "' for '", s.shown, "': " ++ reason ++ after]
  | surplusValue value s =>
    ["error: unexpected value '", value, "' for '", s.shown,
      "' found; no more were expected" ++ after]
  | repeated s =>
    ["error: the argument '", s.shown, "' cannot be used multiple times" ++ after]

/-- What is written about a usage error. Control sequences are left out of each part, and none goes
on into the next. -/
def report (e : UsageError) : List Char :=
  (e.parts "\n\nFor more information, try '" ++ ["--help", "'.\n"]).flatMap fun part =>
    Text.Control.strip part.toList

end UsageError

/-- What was said about the machine. -/
structure MachineOptions where
  /-- Which of the three machines it is. -/
  variant : Variant := .classic
  /-- Input to queue. For a sample it takes the place of the sample's own input. -/
  inputs : List Int := []
  /-- What an input instruction does when it finds the queue empty, if that was said. -/
  onEmptyInput : Option EmptyInput := none
  deriving DecidableEq

/-- What was said about a run. -/
structure RunOptions where
  /-- The most instructions to carry out, zero for no limit. -/
  maxCycles : Nat := 100000
  /-- Whether each instruction gets a line of trace. -/
  trace : Bool := false
  /-- Whether the result is written as a state dump. -/
  json : Bool := false
  /-- The part of memory to show. -/
  memory : Option MailboxRange := none
  deriving DecidableEq

/-- What was said with one verb, or in front of it. -/
structure Choices where
  /-- How often more detail was asked for. -/
  verbose : Nat := 0
  /-- Whether only errors were asked for. -/
  quiet : Bool := false
  /-- The program. -/
  program : Option String := none
  /-- About the machine. -/
  machine : MachineOptions := {}
  /-- About the run. -/
  run : RunOptions := {}
  /-- Where to write to. -/
  output : Option String := none
  /-- The settings that were given, other than those that may be given again. -/
  given : List Setting := []
  deriving DecidableEq

/-- What is to be done. -/
inductive Action
  /-- Say what the command is and list the samples. -/
  | overview
  /-- Run a program. -/
  | run (program : String) (machine : MachineOptions) (run : RunOptions)
  /-- Debug a program. -/
  | debug (program : String) (machine : MachineOptions)
  /-- List a program as assembly. -/
  | disassemble (program : String)
  /-- Write a program to a file. -/
  | save (program path : String)
  /-- List the samples. -/
  | samples
  /-- Run the samples and compare their output. -/
  | selfTest
  deriving DecidableEq

/-- Why reading stopped before all words were read. -/
inductive Detour
  /-- Something was wrong. -/
  | wrong (e : UsageError)
  /-- Help was asked for. -/
  | help
  /-- The version was asked for. -/
  | version
  deriving DecidableEq

namespace Detour

/-- What is written to standard error on a detour: nothing, unless something was wrong. -/
def report : Detour → List Char
  | wrong e => e.report
  | help | version => []

/-- The first line of what is written to standard error. -/
def headline (d : Detour) : String :=
  String.ofList ((Text.lines d.report).headD [])

end Detour

/-- The values of input, with commas between them. -/
def readInputs : List String → Except Detour (List Int)
  | [] => .ok []
  | part :: rest =>
    match Word.read part.toList with
    | .ok w => (readInputs rest).map (w :: ·)
    | .error fault => .error (.wrong (.badValue part .input fault.message))

namespace Choices

/-- Note that a setting was given, which must not happen twice. -/
def note (c : Choices) (s : Setting) : Except Detour Choices :=
  if c.given.contains s then .error (.wrong (.repeated s))
  else .ok { c with given := s :: c.given }

/-- Take the value of a setting. -/
def assign (c : Choices) (s : Setting) (value : String) : Except Detour Choices :=
  if s = .input then do
    let ws ← readInputs (value.splitOn ",")
    return { c with machine := { c.machine with inputs := c.machine.inputs ++ ws } }
  else do
    let c ← c.note s
    match s with
    | .variant =>
      match Variant.parse value with
      | .ok v => return { c with machine := { c.machine with variant := v } }
      | .error e => throw (.wrong (.badValue value s e.message))
    | .onEmptyInput =>
      if value.isEmpty then throw (.wrong (.missingValue s))
      else
        match EmptyInput.named? value with
        | some choice =>
          return { c with machine := { c.machine with onEmptyInput := some choice } }
        | none => throw (.wrong (.noChoice value s))
    | .maxCycles =>
      match Numeral.readUnsigned Numeral.greatestCount value.toList with
      | .ok n => return { c with run := { c.run with maxCycles := n } }
      | .error fault => throw (.wrong (.badValue value s fault.message))
    | .memory =>
      match MailboxRange.parse value with
      | .ok r => return { c with run := { c.run with memory := some r } }
      | .error e => throw (.wrong (.badValue value s e.message))
    | .output => return { c with output := some value }
    | _ => return c

/-- Raise a flag. -/
def raise (c : Choices) (s : Setting) : Except Detour Choices :=
  match s with
  | .help => .error .help
  | .version => .error .version
  | .verbose => .ok { c with verbose := c.verbose + 1 }
  | .quiet => (c.note s).map fun c => { c with quiet := true }
  | .trace => (c.note s).map fun c => { c with run := { c.run with trace := true } }
  | .json => (c.note s).map fun c => { c with run := { c.run with json := true } }
  | _ => .ok c

end Choices

/-- What help is asked for. -/
inductive HelpTopic
  /-- The whole command, unless a verb is named next. -/
  | command
  /-- A verb. Nothing can be named any more. -/
  | verb
  deriving DecidableEq

/-- The words of the command line up to some point. -/
structure Reading where
  /-- The verb, once it was read. -/
  verb : Option Verb := none
  /-- What was said in front of the verb. -/
  before : Choices := {}
  /-- What was said since. -/
  choices : Choices := {}
  /-- The setting whose value was not looked at yet, and the value if it was read. -/
  pending : Option (Setting × Option String) := none
  /-- Whether two hyphens were read, after which every word is taken as it is. -/
  literal : Bool := false
  /-- What help is asked for, once help was asked for by a word. -/
  helpTopic : Option HelpTopic := none

namespace Reading

/-- Look at the value that is pending. -/
def settle (r : Reading) : Except Detour Reading :=
  match r.pending with
  | none => .ok r
  | some (s, none) => .error (.wrong (.missingValue s))
  | some (s, some value) =>
    (r.choices.assign s value).map fun c => { r with choices := c, pending := none }

/-- The setting that waits for a word as its value. -/
def awaiting (r : Reading) : Option Setting :=
  match r.pending with
  | some (s, none) => some s
  | _ => none

/-- Take a setting, with the value that is attached to it if there is one. -/
def takeSetting (r : Reading) (s : Setting) (attached : Option String) :
    Except Detour Reading := do
  match s.takesValue, attached with
  | true, some value =>
    let r ← r.settle
    let c ← r.choices.assign s value
    return { r with choices := c }
  | true, none =>
    let r ← r.settle
    return { r with pending := some (s, none) }
  | false, some value => throw (.wrong (.surplusValue value s))
  | false, none =>
    let r ← r.settle
    let c ← r.choices.raise s
    return { r with choices := c }

/-- Take a word as the value that is awaited. -/
def takeValue (r : Reading) (s : Setting) (word : String) : Reading :=
  { r with pending := some (s, some word) }

/-- Take the letters behind one hyphen. -/
def takeLetters (r : Reading) : List Char → Except Detour Reading
  | [] => .ok r
  | c :: rest =>
    match Setting.ofShort? r.verb c with
    | none => .error (.wrong (.unexpected (String.ofList ['-', c])))
    | some s =>
      if s.takesValue then
        match rest with
        | [] => r.takeSetting s none
        | '=' :: value => r.takeSetting s (some (String.ofList value))
        | value => r.takeSetting s (some (String.ofList value))
      else
        match r.takeSetting s none with
        | .ok next => takeLetters next rest
        | .error e => .error e

/-- Take what follows two hyphens. -/
def takeLong (r : Reading) (text : List Char) : Except Detour Reading :=
  let name := String.ofList (text.takeWhile (· ≠ '='))
  match Setting.ofLong? r.verb name with
  | none => .error (.wrong (.unexpected ("--" ++ name)))
  | some s =>
    match text.dropWhile (· ≠ '=') with
    | [] => r.takeSetting s none
    | _ :: value => r.takeSetting s (some (String.ofList value))

/-- The word that asks for help where a verb could stand. -/
def helpWord : String :=
  "help"

/-- Whether a word could stand in the place of a verb. -/
def isVerbLike (word : String) : Bool :=
  (Verb.named? word).isSome || word = helpWord

/-- Take a word where a verb is expected. -/
def takeVerb (r : Reading) (word : String) : Except Detour Reading :=
  if r.literal ∧ isVerbLike word then .error (.wrong (.unexpected word))
  else if word = helpWord then .ok { r with helpTopic := some .command }
  else
    match Verb.named? word with
    | some v => .ok { verb := some v, before := r.choices }
    | none => .error (.wrong (.unrecognizedVerb word))

/-- Take a word where help is asked for. It can name a verb, or help once more. -/
def takeTopic (r : Reading) (topic : HelpTopic) (word : String) : Except Detour Reading :=
  if topic = .command ∧ isVerbLike word then .ok { r with helpTopic := some .verb }
  else .error (.wrong (.unrecognizedVerb word))

/-- Take a word that is neither setting nor value: a verb, or the program. -/
def takePlain (r : Reading) (word : String) : Except Detour Reading :=
  match r.verb with
  | none => r.takeVerb word
  | some v =>
    if v.needsProgram ∧ r.choices.program.isNone then
      r.settle.map fun r => { r with choices := { r.choices with program := some word } }
    else .error (.wrong (.unexpected word))

/-- Whether the text after a hyphen makes it a negative number. -/
def isNumber (text : List Char) : Bool :=
  let mantissa := text.takeWhile fun c => c ≠ 'e' ∧ c ≠ 'E'
  let exponent := text.dropWhile fun c => c ≠ 'e' ∧ c ≠ 'E'
  mantissa.all (fun c => c.isDigit || c = '.') && mantissa.count '.' ≤ 1
    && mantissa.head? ≠ some '.'
    && match exponent with
      | [] => true
      | _ :: digits => !mantissa.isEmpty && !digits.isEmpty && digits.all Char.isDigit

/-- Take the next word. -/
def takeWord (r : Reading) (word : String) : Except Detour Reading :=
  match r.helpTopic with
  | some topic => r.takeTopic topic word
  | none =>
    if r.literal then r.takePlain word
    else
      match r.awaiting, word.toList with
      | some .memory, _ => .ok (r.takeValue .memory word)
      | _, ['-', '-'] => .ok { r with literal := true }
      | _, '-' :: '-' :: text => r.takeLong text
      | some .input, '-' :: c :: text =>
        if isNumber (c :: text) then .ok (r.takeValue .input word) else r.takeLetters (c :: text)
      | _, '-' :: c :: text => r.takeLetters (c :: text)
      | some s, _ => .ok (r.takeValue s word)
      | none, _ => r.takePlain word

/-- The level of detail that was asked for. What was said with the verb comes before what was said
in front of it. -/
def level (r : Reading) : Level :=
  let verbose := if r.choices.verbose = 0 then r.before.verbose else r.choices.verbose
  Level.ofFlags verbose (r.choices.quiet || r.before.quiet)

/-- What is to be done, unless something is missing. -/
def action (r : Reading) : Except UsageError Action :=
  match r.verb, r.choices.program, r.choices.output with
  | none, _, _ => .ok .overview
  | some .run, some program, _ => .ok (.run program r.choices.machine r.choices.run)
  | some .debug, some program, _ => .ok (.debug program r.choices.machine)
  | some .disassemble, some program, _ => .ok (.disassemble program)
  | some .save, some program, some path => .ok (.save program path)
  | some .samples, _, _ => .ok .samples
  | some .selfTest, _, _ => .ok .selfTest
  | _, _, _ => .error .incomplete

end Reading

/-- Read the words of the command line: the level of the log, and what is to be done. -/
def readArguments (words : List String) : Except Detour (Level × Action) := do
  let r ← words.foldlM Reading.takeWord {}
  if r.helpTopic.isSome then throw .help
  let r ← r.settle
  match r.action with
  | .ok action => return (r.level, action)
  | .error e => throw (.wrong e)

end Command

end LittleMan
