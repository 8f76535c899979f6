import LittleMan.Command.Transcript
import LittleMan.Machine.Journal
import LittleMan.Machine.Run

/-!
# Execution

The loop of the run command: it steps a machine while it runs and instructions are left, tells the
events of each step, and writes a line of trace for each instruction if that was asked for. A step
that errs is complained of; the machine has then faulted and the loop comes to its end.

## Main definitions

* `Execution.before`, `Execution.carryOut` — one round: what is told before a line is read, and the
  step with what is told afterwards
* `Execution.loop`, `Execution.run` — all rounds
* `Execution.allowance` — how many instructions a limit allows
-/

namespace LittleMan

namespace Execution

/-- What is told before the step of a machine takes its input. -/
def before (m : Machine) : Transcript :=
  m.announcement.map Chunk.told

/-- The line of trace of an instruction that was carried out at `pc`. -/
def traceLine (pc : Nat) (i : Instruction) (acc : Int) : String :=
  Numeral.wide 2 pc ++ ": " ++ Text.alignLeft 8 i.text ++ " ACC=" ++ Numeral.plain acc

/-- What is told about the answer of a step that began at `pc`. -/
def outcome (traced : Bool) (pc : Nat) (result : Except StepError Instruction) (acc : Int) :
    Transcript :=
  match result with
  | .ok i => if traced then [.outLine (traceLine pc i acc)] else []
  | .error e => [.errLine ("❌ CPU error at PC=" ++ Numeral.plain pc ++ ": " ++ e.message)]

/-- One step, with what is told about it. -/
def carryOut (traced : Bool) (m : Machine) : Transcript × Machine :=
  let (result, next) := m.step
  (m.remarks.map Chunk.told ++ outcome traced m.pc result next.acc, next)

/-- Up to `n` rounds, with everything that was told, the latest first. -/
def loop (traced : Bool) : Nat → Transcript → Machine → Transcript × Machine
  | 0, told, m => (told, m)
  | n + 1, told, m =>
    if m.isRunning then
      let (after, next) := carryOut traced m
      loop traced n (after.reverse ++ ((before m).reverse ++ told)) next
    else (told, m)

/-- More instructions than a count of cycles can hold. -/
def patience : Nat := 0x10000000000000000

/-- How many instructions a limit allows. Zero stands for no limit. -/
def allowance (limit : Nat) : Nat :=
  if limit = 0 then patience else limit

/-- The whole loop, under a limit. -/
def run (traced : Bool) (limit : Nat) (m : Machine) : Transcript × Machine :=
  let (told, after) := loop traced (allowance limit) [] m
  (told.reverse, after)

end Execution

end LittleMan
