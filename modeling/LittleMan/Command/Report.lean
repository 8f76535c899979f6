import LittleMan.Command.Arguments
import LittleMan.Command.Transcript
import LittleMan.Machine.Journal
import LittleMan.Machine.Operation
import LittleMan.Machine.Snapshot
import LittleMan.Text.Layout

/-!
# Reports

The texts that commands write apart from errors: the result of a run, the list of samples and the
self-test.

## Main definitions

* `Report.state` — the result of a run
* `Report.samples` — the list of samples
* `Report.selfTest` — the samples, run and compared
-/

namespace LittleMan

namespace Report

/-- Words between brackets. -/
def bracketed (ws : List Int) : String :=
  "[" ++ Text.commaSeparated (ws.map Numeral.plain) ++ "]"

/-- A line for each mailbox. -/
def mailboxes (cells : List (Nat × Int)) : List String :=
  cells.map fun cell => "  [" ++ Numeral.wide 2 cell.1 ++ "]: " ++ Numeral.plain cell.2

/-- The part of memory that was asked for, or all that is not zero. -/
def memory (m : Memory) (range : Option MailboxRange) : List String :=
  match range with
  | some r =>
    ("Memory [" ++ Numeral.wide 2 r.first ++ "-" ++ Numeral.wide 2 r.last ++ "]:")
      :: mailboxes (m.range r.first r.last)
  | none => "Memory (non-zero):" :: mailboxes m.nonZero

/-- The lines that tell the state of a machine after a run. -/
def state (m : Machine) (range : Option MailboxRange) : List String :=
  ["",
    "━━━ Result ━━━",
    "Cycles:      " ++ Numeral.plain m.cycles,
    "State:       " ++ m.state.name,
    "Word:        " ++ m.policy.name,
    "Accumulator: " ++ Numeral.plain m.acc,
    "PC:          " ++ Numeral.wide 2 m.pc,
    "Output:      " ++ bracketed m.output.toList]
    ++ (if m.pending.isEmpty then [] else ["Input left:  " ++ bracketed m.pending])
    ++ (if m.diagnostics.isEmpty then []
      else "Diagnostics:" :: m.diagnostics.toList.map fun d => "  " ++ d.text)
    ++ memory m.memory range

/-- The notice that a run came to its limit. -/
def limitNotice (limit : Nat) : List String :=
  ["", "⚠️  Reached max cycles limit (" ++ Numeral.plain limit
    ++ "). Use --max-cycles to increase."]

/-- The list of samples. -/
def samples : List String :=
  "Sample programs (run with `lmc-emu run sample:NAME`):"
    :: Sample.catalogue.map fun s =>
      "  " ++ Text.alignLeft 14 s.name ++ " " ++ s.description ++ " ["
        ++ Text.commaSeparated (s.variants.map Variant.name) ++ "]"

/-- What is written when nothing was asked for. -/
def overview : List String :=
  ["LMC Emulator v0.1.0",
    "A Little Man Computer emulator",
    "",
    "Use --help for available commands",
    ""] ++ samples

/-- The version. -/
def version : List String :=
  ["lmc-emu 0.1.0"]

/-- The most instructions that a sample may take in the self-test. -/
def selfTestLimit : Nat := 100000

/-- How a sample fared in the self-test: its output if that is not what was expected. -/
def fares (v : Variant) (s : Sample) : Option (List Int) :=
  let (result, m) := (s.prepareAsShown (Machine.new v.policy)).runLimited selfTestLimit
  let output := m.output.toList
  if result.isOk && m.isHalted && output = s.expected then none else some output

/-- What is told about a sample in the self-test. -/
def trial (v : Variant) (s : Sample) : Transcript :=
  let m := Machine.new v.policy
  let verdict :=
    match fares v s with
    | none => "✓"
    | some output =>
      "✗ (got " ++ bracketed output ++ ", expected " ++ bracketed s.expected ++ ")"
  Chunk.out (v.name ++ " " ++ Text.alignLeft 14 s.name ++ "... ")
    :: (s.journal s.inputs m).map Chunk.logged
    ++ ((s.prepareAsShown m).runJournal selfTestLimit).map Chunk.told
    ++ [.outLine verdict]

/-- The trials of the self-test: every variant with each sample that it supports. -/
def trials : List (Variant × Sample) :=
  Variant.all.flatMap fun v => (Sample.catalogue.filter fun s => s.supports v).map fun s => (v, s)

/-- The self-test, and whether all trials passed. -/
def selfTest : Transcript × Bool :=
  let failed := trials.countP fun (v, s) => (fares v s).isSome
  let summary :=
    ["", "━━━━━━━━━━━━━━━━━━━━━━━━━━━━━━",
      "Results: " ++ Numeral.plain (trials.length - failed : Nat) ++ " passed, "
        ++ Numeral.plain failed ++ " failed"]
      ++ if failed = 0 then ["✓ All tests passed!"] else []
  (["━━━ LMC Emulator Self-Test ━━━", ""].map Chunk.outLine
    ++ trials.flatMap (fun (v, s) => trial v s)
    ++ summary.map Chunk.outLine,
    failed = 0)

end Report

end LittleMan
