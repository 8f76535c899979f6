import LittleMan.Command.Invocation

/-!
# The command line

The outermost layer: it reads what an invocation needs, writes what comes of it, and exits. Lines
for a prompt are read one at a time, when a machine waits for them.
-/

namespace LittleMan

namespace CommandLine

/-- The number of a system error, which may come with its sign turned around. -/
def errorNumber (code : UInt32) : Nat :=
  min code.toNat (0x100000000 - code.toNat)

/-- The reason behind a failure of the system. -/
def fileError (e : IO.Error) : FileError :=
  match e with
  | .noFileOrDirectory _ _ _ => .notFound
  | .inappropriateType _ code details | .invalidArgument _ code details
  | .resourceExhausted _ code details | .permissionDenied _ code details =>
    match errorNumber code with
    | 20 => .notADirectory
    | 21 => .isADirectory
    | 36 => .nameTooLong
    | n => .other (details ++ " (os error " ++ toString n ++ ")")
  | _ => .other (toString e)

/-- An action whose failure is turned into an error about a file. -/
def attempt {α : Type} (action : IO α) : IO (Except FileError α) := do
  try
    return .ok (← action)
  catch e =>
    return .error (fileError e)

/-- Write out a transcript, with a log of level `limit`. -/
def write (limit : Level) (t : Transcript) : IO Unit :=
  t.forM fun chunk =>
    match chunk with
    | .out text => IO.print text
    | .told e => IO.eprint (e.shownAt limit)

/-- Read what an invocation needs. -/
def fetch (n : Need) : IO (Except FileError (List UInt8)) :=
  match n with
  | .nothing => return .ok []
  | .standardInput => attempt do
    let bytes ← (← IO.getStdin).readBinToEnd
    return bytes.toList
  | .file path => attempt do
    let bytes ← IO.FS.readBinFile path
    return bytes.toList

/-- The machine with one more typed line, unless standard input is at its end. -/
def feed (m : Machine) : IO Machine := do
  (← IO.getStdout).flush
  let line ← attempt (← IO.getStdin).getLine
  match m.provider, line with
  | .prompt lines asked, .ok text =>
    if text.isEmpty then return m
    else return m.attach (.prompt (lines.push (some text)) asked)
  | .prompt lines asked, .error _ => return m.attach (.prompt (lines.push none) asked)
  | _, _ => return m

/-- Step a machine while it runs, at most `n` times. -/
def execute (limit : Level) (traced : Bool) : Nat → Machine → IO Machine
  | 0, m => return m
  | n + 1, m =>
    if m.isRunning then do
      write limit (Execution.before m)
      let m ← if m.awaitsLine then feed m else pure m
      let (told, next) := Execution.carryOut traced m
      write limit told
      execute limit traced n next
    else return m

/-- Carry out an invocation. -/
def carryOut (i : Invocation) : IO Nat := do
  write i.level i.opening
  match i.begin (← fetch i.need) #[] with
  | .done told exit =>
    write i.level told
    return exit
  | .execute told m run =>
    write i.level told
    let after ← execute i.level run.trace (Execution.allowance run.maxCycles) m
    write i.level (Invocation.report run after)
    return Invocation.exitOf after
  | .save told path cells =>
    write i.level told
    let result ← attempt (IO.FS.writeFile path (ProgramText.write cells))
    let (last, exit) := Invocation.afterSave path cells result
    write i.level last
    return exit

/-- The page of help on the whole command, which is shown for a single verb as well. -/
def helpPage : List String :=
  ["An emulator of the Little Man Computer",
    "",
    "Usage: lmc-emu [OPTIONS] [COMMAND]",
    "",
    "Commands:",
    "  run       Run a program until it halts",
    "  debug     Interactive single-step debugger",
    "  disasm    Disassemble a program",
    "  export    Write a program (e.g. a sample) as a program file",
    "  samples   List the built-in sample programs",
    "  selftest  Run every sample on every variant",
    "  help      Print this message or the help of the given subcommand(s)",
    "",
    "Options:",
    "  -v, --verbose...  More log output (-v info, -vv debug, -vvv per-instruction trace)",
    "  -q, --quiet       Only log errors",
    "  -h, --help        Print help",
    "  -V, --version     Print version"]

/-- Do what the words of the command line ask for. -/
def run (words : List String) : IO Nat :=
  match Invocation.parse words with
  | .ok i => carryOut i
  | .error .help => do
    write .warn (helpPage.map Chunk.outLine)
    return 0
  | .error .version => do
    write .warn (Report.version.map Chunk.outLine)
    return 0
  | .error (.wrong e) => do
    IO.eprint (String.ofList e.report)
    return 2

end CommandLine

end LittleMan

/-- The command line. -/
def main (words : List String) : IO UInt32 := do
  let exit ← LittleMan.CommandLine.run words
  return exit.toUInt32
