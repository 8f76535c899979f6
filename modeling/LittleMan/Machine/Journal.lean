import LittleMan.Log
import LittleMan.Machine.Step

/-!
# What a machine makes known

Loading, queueing and stepping are accompanied by events: records for the log, and the question
that is shown when a line is read. The events of an operation depend on the machine before it and
are kept apart from the operation itself, so that a machine does not carry its own log around.

The events of a step come in two parts. What `announcement` lists comes before an input line is
read, what `remarks` lists comes after.

## Main definitions

* `Machine.loadJournal`, `Machine.queueJournal` — what loading and queueing record
* `Machine.announcement`, `Machine.remarks` — what a step makes known
* `Machine.runJournal` — what a limited run makes known
* `Machine.awaitsLine` — whether the next step reads a line that has not been typed yet
-/

namespace LittleMan

namespace Machine

/-- What loading words from mailbox `start` on records. -/
def loadJournal (m : Machine) (start : Nat) (ws : List Int) : List Record :=
  (Diagnostic.clampings m.policy ws).map Record.diagnosed
    ++ if Memory.fitting start ws.length < ws.length then
        [.truncated (Memory.fitting start ws.length) ws.length start]
      else []

/-- What queueing input records. -/
def queueJournal (m : Machine) (ws : List Int) : List Record :=
  (Diagnostic.clampings m.policy ws).map Record.diagnosed

/-- The word that the next step carries out, if the machine can take a step. -/
def fetched? (m : Machine) : Option Int :=
  if m.isRunning then m.memory.get? m.pc else none

/-- Whether the next step asks the provider. -/
def asks (m : Machine) : Bool :=
  match m.fetched? with
  | some raw => Instruction.decode raw = .inp && m.pending.isEmpty
  | none => false

/-- What a step makes known before it takes input: the instruction that was fetched, and the
question if one is asked. -/
def announcement (m : Machine) : List Event :=
  match m.fetched? with
  | some raw =>
    .record (.fetched m.pc raw m.acc)
      :: if m.asks then m.provider.question?.toList.map Event.shown else []
  | none => []

/-- What an input instruction makes known about the answer it got. -/
def answerRemarks (m : Machine) : List Event :=
  m.provider.comment?.toList.map Event.shown
    ++ match m.provider.ask.1 with
      | some w =>
        (Diagnostic.clampings m.policy [w]).map fun d => .record (.diagnosed d)
      | none => [.record (.diagnosed (.inputStarved m.pc))]

/-- What a step makes known once its input is taken: what it reports. -/
def remarks (m : Machine) : List Event :=
  if m.isRunning then
    match m.memory.get? m.pc with
    | none => [.record (.diagnosed (.pcOutOfBounds m.pc))]
    | some raw =>
      match Instruction.decode raw with
      | .unknown raw => [.record (.diagnosed (.unknownInstruction m.pc raw))]
      | .inp => if m.pending.isEmpty then m.answerRemarks else []
      | _ => []
  else []

/-- What up to `n` steps make known, after what was made known before. The latest comes first. -/
def runEvents : Nat → List Event → Machine → List Event
  | 0, earlier, _ => earlier
  | n + 1, earlier, m =>
    if m.isRunning then
      runEvents n (m.remarks.reverse ++ (m.announcement.reverse ++ earlier)) m.step.2
    else earlier

/-- What a run of at most `limit` instructions makes known. -/
def runJournal (m : Machine) (limit : Nat) : List Event :=
  (runEvents limit [] m).reverse

/-- Whether the next step reads a line beyond those typed so far. -/
def awaitsLine (m : Machine) : Bool :=
  m.asks &&
    match m.provider with
    | .prompt lines asked => lines.size ≤ asked
    | _ => false

end Machine

end LittleMan
