import LittleMan.Command.Execution
import LittleMan.Command.Program
import LittleMan.Command.Report
import LittleMan.Listing

/-!
# Invocations

A whole invocation of the command, from its words to what it tells and how it exits. The outside
world is met in three places only: the program is read, lines are read while a machine runs, and a
file is written. So an invocation says what it needs to read, goes on once it has it, and either is
done, or hands out a machine to execute, or hands out a file to write. All between is functions on
data, and `Invocation.perform` puts them together over a file tree.

## Main definitions

* `Invocation`, `Invocation.parse` — what is to be done
* `Invocation.need`, `Invocation.begin` — what has to be read first, and going on with it
* `Progress` — being done, executing a machine, or writing a file
* `Invocation.perform` — all of it over a file tree and a standard input
-/

namespace LittleMan

open Command (Action Detour MachineOptions RunOptions)

/-- What is to be done, and how much of it is logged. -/
structure Invocation where
  /-- The level of the log. -/
  level : Level
  /-- What is to be done. -/
  action : Action
  deriving DecidableEq

/-- How an invocation goes on. -/
inductive Progress
  /-- It is done. -/
  | done (told : Transcript) (exit : Nat)
  /-- A machine is to be executed. -/
  | execute (told : Transcript) (m : Machine) (options : RunOptions)
  /-- A program is to be written to a file. -/
  | save (told : Transcript) (path : String) (cells : List Int)

/-- The lines that can be typed in answer to a prompt, from the bytes of a standard input. A line
that is not text is `none`. -/
def typedLines (bytes : List UInt8) : Array (Option String) :=
  ((Text.byteLines bytes).map fun line => (Text.decode line).map String.ofList).toArray

/-- The program that an action names. -/
def Command.Action.program? : Action → Option String
  | run program _ _ | debug program _ | disassemble program | save program _ => some program
  | overview | samples | selfTest => none

namespace Invocation

/-- The invocation that words stand for. -/
def parse (words : List String) : Except Detour Invocation :=
  (Command.readArguments words).map fun r => ⟨r.1, r.2⟩

/-- Where the program comes from, if one is named. -/
def origin? (i : Invocation) : Option Origin :=
  i.action.program?.map Origin.ofName

/-- What has to be read first. -/
def need (i : Invocation) : Need :=
  match i.origin? with
  | some o => o.need
  | none => .nothing

/-- What is told before anything is read. -/
def opening (i : Invocation) : Transcript :=
  match i.origin? with
  | some o => o.opening
  | none => []

/-- What is told before a machine runs. -/
def runHeading (program : String) (machine : MachineOptions) (run : RunOptions) : Transcript :=
  if run.json then []
  else
    ["🔧 Running: " ++ program ++ " (" ++ machine.variant.name ++ ")", "",
      "━━━ Execution ━━━"].map Chunk.outLine

/-- What is told of a debugger, which cannot open a screen. -/
def debuggerFailure : Transcript :=
  [.outLine "🚀 Launching debugger...",
    .complaint "Debugger error: No such device or address (os error 6)"]

/-- What is told of a program that is listed. -/
def listing (program : String) (s : Source) : Transcript :=
  ["📖 Disassembling: " ++ program, "", Listing.ofCells s.listed].map Chunk.outLine

/-- What is told before a program is written to a file. -/
def saveHeading (program path : String) : Transcript :=
  [.outLine ("📝 Exporting: " ++ program ++ " → " ++ path)]

/-- Find a program and go on with it, or exit. -/
def withProgram (program : String) (content : Except FileError (List UInt8))
    (next : Transcript → Source → Progress) : Progress :=
  match (Origin.ofName program).find program content with
  | (told, some s) => next told s
  | (told, none) => .done told 1

/-- Go on with an invocation once what it needs was read. -/
def begin (i : Invocation) (content : Except FileError (List UInt8))
    (lines : Array (Option String)) : Progress :=
  match i.action with
  | .overview => .done (Report.overview.map Chunk.outLine) 0
  | .run program machine run =>
    withProgram program content fun told s =>
      let (built, m) := s.build machine true lines
      .execute (told ++ built ++ runHeading program machine run) m run
  | .debug program machine =>
    withProgram program content fun told s =>
      .done (told ++ (s.build machine false lines).1 ++ debuggerFailure) 1
  | .disassemble program =>
    withProgram program content fun told s => .done (told ++ listing program s) 0
  | .save program path =>
    withProgram program content fun told s =>
      .save (told ++ s.imageJournal.map Chunk.logged ++ saveHeading program path) path s.image
  | .samples => .done (Report.samples.map Chunk.outLine) 0
  | .selfTest =>
    let (told, passed) := Report.selfTest
    .done told (if passed then 0 else 1)

/-- What is told once a machine has been executed. -/
def report (run : RunOptions) (m : Machine) : Transcript :=
  if run.json then [.outLine m.snapshot.indented]
  else
    (Report.state m run.memory
      ++ if m.isRunning then Report.limitNotice run.maxCycles else []).map Chunk.outLine

/-- How a run exits. -/
def exitOf (m : Machine) : Nat :=
  if m.isFaulted then 2 else 0

/-- What is told once a file was written, or could not be, and the exit. -/
def afterSave (path : String) (cells : List Int) (result : Except FileError Unit) :
    Transcript × Nat :=
  match result with
  | .ok _ =>
    ([.outLine ("✓ Saved " ++ Numeral.plain cells.length ++ " cells to " ++ path)], 0)
  | .error e => ([.complaint ("Failed to save program: " ++ e.message path)], 1)

/-- Everything that comes of an invocation. -/
structure Outcome where
  /-- What was told. -/
  told : Transcript
  /-- The level of the log. -/
  level : Level
  /-- The exit code. -/
  exit : Nat
  /-- The files afterwards. -/
  files : FileTree

/-- What standard output got. -/
def Outcome.output (o : Outcome) : String :=
  o.told.output

/-- What standard error got. -/
def Outcome.errors (o : Outcome) : String :=
  o.told.errors o.level

/-- What an invocation needs to read, from a standard input and a file tree. -/
def fetch (i : Invocation) (stdin : List UInt8) (t : FileTree) :
    Except FileError (List UInt8) :=
  match i.need with
  | .nothing => .ok []
  | .standardInput => .ok stdin
  | .file path => t.read path

/-- The lines that are left for prompts once the program was read. -/
def linesLeft (i : Invocation) (stdin : List UInt8) : Array (Option String) :=
  match i.need with
  | .standardInput => #[]
  | _ => typedLines stdin

/-- Carry out an invocation over a standard input and a file tree. -/
def carryOut (i : Invocation) (stdin : List UInt8) (t : FileTree) : Outcome :=
  match i.begin (i.fetch stdin t) (i.linesLeft stdin) with
  | .done told exit => ⟨i.opening ++ told, i.level, exit, t⟩
  | .execute told m run =>
    let (during, after) := Execution.run run.trace run.maxCycles m
    ⟨i.opening ++ told ++ during ++ report run after, i.level, exitOf after, t⟩
  | .save told path cells =>
    match t.save path cells with
    | .ok next =>
      let (last, exit) := afterSave path cells (.ok ())
      ⟨i.opening ++ told ++ last, i.level, exit, next⟩
    | .error e =>
      let (last, exit) := afterSave path cells (.error e)
      ⟨i.opening ++ told ++ last, i.level, exit, t⟩

/-- What the words of a command line bring about. Help and complaints are left to the caller. -/
def perform (words : List String) (stdin : List UInt8) (t : FileTree) : Except Detour Outcome :=
  match parse words with
  | .ok i => .ok (i.carryOut stdin t)
  | .error .version => .ok ⟨Report.version.map Chunk.outLine, .warn, 0, t⟩
  | .error d => .error d

end Invocation

end LittleMan
