import LittleMan.Listing
import LittleMan.Machine.Operation
import LittleMan.Machine.Snapshot
import LittleMan.ProgramText

/-!
# Sessions

A session is a machine that remembers what was loaded and what was typed in. A reset goes back to
the program that was loaded last, with all input since then queued again. Nobody can be prompted in
a session: an input instruction that finds nothing is reported.

## Main definitions

* `Session`, `Session.open?` — a session, opened for the name of a variant
* `Session.loadText`, `Session.loadSample?`, `Session.addInput`, `Session.step`, `Session.run`,
  `Session.reset` — what can be done in it
* `SessionCall`, `Session.call`, `Session.play` — the same as data, one call and a list of them
-/

namespace LittleMan

/-- A machine that remembers what was loaded and typed in. -/
structure Session where
  /-- The machine. -/
  machine : Machine
  /-- The program that was loaded last. -/
  program : List Int := []
  /-- All input since then. -/
  inputs : List Int := []
  /-- The lines that were left out of the last program text. -/
  skipped : List SkippedLine := []

namespace Session

/-- A fresh session for a variant. -/
def new (v : Variant) : Session where
  machine := Machine.new v.policy

/-- A fresh session for the name of a variant. -/
def open? (name : String) : Except UnknownVariant Session :=
  (Variant.parse name).map new

/-- Go back to the program that was loaded last, with all input since then queued again. -/
def reset (s : Session) : Session :=
  { s with machine := (s.machine.reset.load s.program).queue s.inputs }

/-- Load program text. -/
def loadText (s : Session) (source : String) : Session :=
  let text := ProgramText.parse source
  { s with program := text.cells, skipped := text.skipped, inputs := [] }.reset

/-- Load a sample with its own input, if there is one of that name. -/
def loadSample? (s : Session) (name : String) : Option Session :=
  (Sample.find? name).map fun sample =>
    let m := sample.prepareAsShown s.machine
    { machine := m, program := m.memory.toList, inputs := sample.inputs, skipped := [] }

/-- Queue one value of input. -/
def addInput (s : Session) (w : Int) : Session :=
  { s with machine := s.machine.queue [w], inputs := s.inputs ++ [w] }

/-- Take one step. The answer is the instruction that was carried out, or why none was. -/
def step (s : Session) : Except StepError Instruction × Session :=
  let (result, next) := s.machine.step
  (result, { s with machine := next })

/-- Run for at most `limit` instructions. The answer is the number of instructions that the machine
has carried out altogether. -/
def run (s : Session) (limit : Nat) : Except StepError Nat × Session :=
  let (result, next) := s.machine.runLimited limit
  (result.map fun _ => next.cycles, { s with machine := next })

/-- The numbers of the lines that were left out. -/
def skippedLines (s : Session) : List Nat :=
  s.skipped.map SkippedLine.number

end Session

/-- What can be asked of a session. -/
inductive SessionCall
  /-- Load program text. -/
  | loadText (source : String)
  /-- Load a sample with its own input. -/
  | loadSample (name : String)
  /-- Queue one value of input. -/
  | addInput (w : Int)
  /-- Take one step. -/
  | step
  /-- Run for at most so many instructions. -/
  | run (limit : Nat)
  /-- Go back to the program that was loaded last. -/
  | reset

/-- What a session answers. -/
inductive SessionAnswer
  /-- Nothing to say. -/
  | done
  /-- How many words the program has. -/
  | loaded (count : Nat)
  /-- The instruction that was carried out. -/
  | stepped (i : Instruction)
  /-- How many instructions the machine has carried out altogether. -/
  | ran (cycles : Nat)

/-- Why a call of a session failed. -/
inductive SessionError
  /-- There is no sample of that name. -/
  | unknownSample (name : String)
  /-- A step went wrong. -/
  | step (e : StepError)

/-- The wording of a failed call. -/
def SessionError.message : SessionError → String
  | unknownSample name => "unknown sample: " ++ name
  | step e => e.message

namespace Session

/-- Make a call: the answer, or why it failed, and the session afterwards. -/
def call (s : Session) : SessionCall → Except SessionError SessionAnswer × Session
  | .loadText source =>
    let next := s.loadText source
    (.ok (.loaded next.program.length), next)
  | .loadSample name =>
    match s.loadSample? name with
    | some next => (.ok .done, next)
    | none => (.error (.unknownSample name), s)
  | .addInput w => (.ok .done, s.addInput w)
  | .step =>
    let (result, next) := s.step
    ((result.map .stepped).mapError .step, next)
  | .run limit =>
    let (result, next) := s.run limit
    ((result.map .ran).mapError .step, next)
  | .reset => (.ok .done, s.reset)

/-- The session after a list of calls, whether they succeed or fail. -/
def play (s : Session) (calls : List SessionCall) : Session :=
  calls.foldl (fun s c => (s.call c).2) s

@[simp] theorem play_nil (s : Session) : s.play [] = s := rfl

@[simp] theorem play_cons (s : Session) (c : SessionCall) (rest : List SessionCall) :
    s.play (c :: rest) = (s.call c).2.play rest := rfl

end Session

end LittleMan
