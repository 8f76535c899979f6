import LittleMan.Command.Arguments
import LittleMan.Command.Transcript
import LittleMan.ProgramFile
import LittleMan.Sample

/-!
# Programs for commands

Where a command gets its program from, and the machine that it is loaded into. A program is named
as a sample, as standard input or as a file. What was left out of program text, and what did not
fit in memory, is told.

## Main definitions

* `Origin`, `Origin.need` — where a program comes from, and what has to be read for it
* `Source`, `Origin.find` — a program, and finding it
* `Source.build` — a machine with the program loaded and input queued
-/

namespace LittleMan

open Command (EmptyInput MachineOptions)

/-- Where a program comes from. -/
inductive Origin
  /-- It is a sample. -/
  | sample (name : String)
  /-- It is typed in. -/
  | standardInput
  /-- It is in a file. -/
  | file (path : String)
  deriving DecidableEq

/-- What has to be read before a command can go on. -/
inductive Need
  /-- Nothing. -/
  | nothing
  /-- All of standard input. -/
  | standardInput
  /-- A file. -/
  | file (path : String)
  deriving DecidableEq

/-- A program that was found. -/
inductive Source
  /-- The words of program text. -/
  | cells (ws : List Int)
  /-- A sample. -/
  | sample (s : Sample)
  deriving DecidableEq

/-- A complaint after which a command exits. -/
def Chunk.complaint (text : String) : Chunk :=
  errLine ("❌ " ++ text)

namespace Origin

/-- The origin that a name stands for. -/
def ofName (name : String) : Origin :=
  match name.toList with
  | 's' :: 'a' :: 'm' :: 'p' :: 'l' :: 'e' :: ':' :: rest => sample (String.ofList rest)
  | ['-'] => standardInput
  | _ => file name

/-- What has to be read for a program. -/
def need : Origin → Need
  | sample _ => .nothing
  | standardInput => .standardInput
  | file path => .file path

/-- What is told before anything is read. -/
def opening : Origin → Transcript
  | standardInput => [.errLine "Enter one value per line, end with Ctrl-D:"]
  | _ => []

/-- The wording when a program could not be read. -/
def failure (o : Origin) (e : FileError) : String :=
  "Failed to load program: "
    ++ match o with
      | file path => e.message path
      | _ => e.text

/-- What is recorded when program text was read. -/
def journal (o : Origin) (text : ProgramText) : List Record :=
  text.skipped.map (fun l => .skippedLine l.number l.text)
    ++ match o with
      | file path => [.loaded text.cells.length path]
      | _ => []

/-- What is told about program text that was read. -/
def account (o : Origin) (text : ProgramText) : Transcript :=
  (o.journal text).map Chunk.logged
    ++ text.skipped.map fun l =>
      Chunk.errLine ("⚠️  Skipped line " ++ Numeral.plain l.number ++ ": " ++ l.text)

/-- The program that goes by `name`, from what was read, with what is told about it. -/
def find (o : Origin) (name : String) (content : Except FileError (List UInt8)) :
    Transcript × Option Source :=
  match o with
  | sample s =>
    match Sample.find? s with
    | some s => ([], some (.sample s))
    | none => ([.complaint ("Unknown sample `" ++ s ++ "` (see `lmc-emu samples`)")], none)
  | _ =>
    match ProgramText.ofFile content with
    | .error e => ([.complaint (o.failure e)], none)
    | .ok text =>
      if text.cells.isEmpty then
        (o.account text ++ [.complaint ("No instructions in " ++ name)], none)
      else (o.account text, some (.cells text.cells))

end Origin

/-- What an input instruction does when it finds the queue empty, and what is recorded about that.
Nobody can be prompted unless the command is interactive. -/
def emptyInput (options : MachineOptions) (interactive : Bool) : EmptyInput × List Record :=
  match options.onEmptyInput with
  | some .prompt => if interactive then (.prompt, []) else (.warn, [.cannotPrompt])
  | some choice => (choice, [])
  | none => if interactive && options.variant.prompts then (.prompt, []) else (.warn, [])

/-- The provider for a choice, with the lines that can be typed. -/
def Provider.ofChoice (choice : EmptyInput) (lines : Array (Option String)) : Provider :=
  match choice with
  | .warn => silent
  | .prompt => prompt lines 0
  | .zero => fixed 0

namespace Source

/-- The words of a program as they are listed. -/
def listed : Source → List Int
  | cells ws => ws
  | sample s => s.cells

/-- The words of a program as they are written to a file, with preset words in their places. -/
def image : Source → List Int
  | cells ws => ws
  | sample s => s.image

/-- What making the image records. A machine is needed only to put the words of a sample in their
places. -/
def imageJournal : Source → List Record
  | cells _ => []
  | sample s => s.imageJournal

/-- What is told when not all words fit in memory. -/
def overflow (ws : List Int) : Transcript :=
  let written := Memory.fitting 0 ws.length
  if written < ws.length then
    [.errLine ("⚠️  Program truncated to " ++ Numeral.plain written ++ " of "
      ++ Numeral.plain ws.length ++ " cells")]
  else []

/-- A machine with a program loaded and input queued, with what is told about that. -/
def load (inputs : List Int) (m : Machine) : Source → Transcript × Machine
  | cells ws =>
    ((m.loadJournal 0 ws).map Chunk.logged ++ overflow ws
      ++ ((m.load ws).queueJournal inputs).map Chunk.logged, (m.load ws).queue inputs)
  | sample s =>
    let inputs := if inputs.isEmpty then s.inputs else inputs
    ((s.journal inputs m).map Chunk.logged, s.prepare inputs m)

/-- The machine that was asked for, with a program loaded and input queued, and what is told about
that. -/
def build (s : Source) (options : MachineOptions) (interactive : Bool)
    (lines : Array (Option String)) : Transcript × Machine :=
  let (choice, records) := emptyInput options interactive
  let m := (Machine.new options.variant.policy).attach (.ofChoice choice lines)
  let (told, loaded) := s.load options.inputs m
  (records.map Chunk.logged ++ told, loaded)

end Source

end LittleMan
