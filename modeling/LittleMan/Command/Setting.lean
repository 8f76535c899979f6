/-!
# Settings and verbs

What can be said on the command line: the verbs that say what to do, and the settings that go with
them. Some settings are plain flags, others take a value. Two of them are understood by every verb
and also in front of it.

## Main definitions

* `Verb`, `Verb.named?` — what to do
* `Setting` — long and short names, whether a value follows, and how the setting is shown
* `Setting.ofLong?`, `Setting.ofShort?` — the setting of a name, where it is understood
-/

namespace LittleMan

namespace Command

/-- What the command line asks for. -/
inductive Verb
  /-- Run a program. -/
  | run
  /-- Debug a program. -/
  | debug
  /-- List a program as assembly. -/
  | disassemble
  /-- Write a program to a file. -/
  | save
  /-- List the samples. -/
  | samples
  /-- Run the samples and compare their output. -/
  | selfTest
  deriving DecidableEq

namespace Verb

/-- The word for a verb. -/
def word : Verb → String
  | run => "run"
  | debug => "debug"
  | disassemble => "disasm"
  | save => "export"
  | samples => "samples"
  | selfTest => "selftest"

/-- All verbs. -/
def all : List Verb :=
  [run, debug, disassemble, save, samples, selfTest]

/-- The verb of a word. -/
def named? (s : String) : Option Verb :=
  all.find? fun v => v.word = s

/-- Whether a program has to be named. -/
def needsProgram : Verb → Bool
  | run | debug | disassemble | save => true
  | samples | selfTest => false

end Verb

/-- A setting of the command line. -/
inductive Setting
  | verbose | quiet | help | version
  | variant | input | onEmptyInput | maxCycles | trace | json | memory | output
  deriving DecidableEq

namespace Setting

/-- The long name, which follows two hyphens. -/
def long : Setting → String
  | verbose => "verbose"
  | quiet => "quiet"
  | help => "help"
  | version => "version"
  | variant => "variant"
  | input => "input"
  | onEmptyInput => "on-empty-input"
  | maxCycles => "max-cycles"
  | trace => "trace"
  | json => "json"
  | memory => "memory"
  | output => "output"

/-- The letter that follows one hyphen, if there is one. -/
def short : Setting → Option Char
  | verbose => some 'v'
  | quiet => some 'q'
  | help => some 'h'
  | version => some 'V'
  | input => some 'i'
  | maxCycles => some 'm'
  | trace => some 't'
  | output => some 'o'
  | variant | onEmptyInput | json | memory => none

/-- The word that stands for the value, if a value follows. -/
def valueName? : Setting → Option String
  | variant => some "VARIANT"
  | input => some "INPUT"
  | onEmptyInput => some "ON_EMPTY_INPUT"
  | maxCycles => some "MAX_CYCLES"
  | memory => some "START-END"
  | output => some "OUTPUT"
  | verbose | quiet | help | version | trace | json => none

/-- Whether a value follows. -/
def takesValue (s : Setting) : Bool :=
  s.valueName?.isSome

/-- Whether the setting adds up when it is given again. -/
def addsUp : Setting → Bool
  | verbose => true
  | _ => false

/-- How the setting is shown in messages. Dots stand behind a flag that adds up. -/
def shown (s : Setting) : String :=
  match s.valueName? with
  | some name => "--" ++ s.long ++ " <" ++ name ++ ">"
  | none => "--" ++ s.long ++ if s.addsUp then "..." else ""

/-- The settings that are understood with a verb, or in front of any verb. -/
def understood : Option Verb → List Setting
  | none => [verbose, quiet, help, version]
  | some .run =>
    [verbose, quiet, help, variant, input, onEmptyInput, maxCycles, trace, json, memory]
  | some .debug => [verbose, quiet, help, variant, input, onEmptyInput]
  | some .save => [verbose, quiet, help, output]
  | some .disassemble | some .samples | some .selfTest => [verbose, quiet, help]

/-- The setting of a long name. -/
def ofLong? (scope : Option Verb) (name : String) : Option Setting :=
  (understood scope).find? fun s => s.long = name

/-- The setting of a letter. -/
def ofShort? (scope : Option Verb) (c : Char) : Option Setting :=
  (understood scope).find? fun s => s.short = some c

end Setting

end Command

end LittleMan
