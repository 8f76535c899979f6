import LittleMan.Dump
import LittleMan.Machine.Basic

/-!
# Snapshots

A snapshot is what can be seen of a machine at one moment: everything but its provider and its last
instruction. Memory is given by the mailboxes that do not hold zero.

## Main definitions

* `Snapshot`, `Machine.snapshot` — the view, and taking it
* `Snapshot.dump` — the view as a tree, from which its written forms are made
* `Snapshot.compact`, `Snapshot.indented` — the written forms
-/

namespace LittleMan

/-- What can be seen of a machine at one moment. -/
structure Snapshot where
  /-- How words are kept. -/
  policy : Policy
  /-- Running, halted or faulted. -/
  state : State
  /-- The accumulator. -/
  accumulator : Int
  /-- The program counter. -/
  pc : Nat
  /-- The number of instructions carried out. -/
  cycles : Nat
  /-- The mailboxes that do not hold zero, with their addresses. -/
  memory : List (Nat × Int)
  /-- The input that waits. -/
  input : List Int
  /-- Everything that was put out. -/
  output : List Int
  /-- Everything that was reported. -/
  diagnostics : List Diagnostic
  deriving DecidableEq

/-- The view of a machine. -/
def Machine.snapshot (m : Machine) : Snapshot where
  policy := m.policy
  state := m.state
  accumulator := m.acc
  pc := m.pc
  cycles := m.cycles
  memory := m.memory.nonZero
  input := m.pending
  output := m.output.toList
  diagnostics := m.diagnostics.toList

/-- A diagnostic as a tree, tagged by its kind. -/
def Diagnostic.dump : Diagnostic → Dump
  | .unknownInstruction pc raw =>
    .record [("kind", .label "unknown_instruction"), ("pc", .number pc), ("raw", .number raw)]
  | .inputStarved pc => .record [("kind", .label "input_starved"), ("pc", .number pc)]
  | .pcOutOfBounds pc => .record [("kind", .label "pc_out_of_bounds"), ("pc", .number pc)]
  | .valueClamped value clamped =>
    .record [("kind", .label "value_clamped"), ("value", .number value),
      ("clamped", .number clamped)]

namespace Snapshot

/-- A snapshot as a tree. -/
def dump (s : Snapshot) : Dump :=
  .record
    [("policy", .label s.policy.label),
      ("state", .label s.state.name),
      ("accumulator", .number s.accumulator),
      ("pc", .number s.pc),
      ("cycles", .number s.cycles),
      ("memory", .list (s.memory.map fun cell => .list [.number cell.1, .number cell.2])),
      ("input", .numbers s.input),
      ("output", .numbers s.output),
      ("diagnostics", .list (s.diagnostics.map Diagnostic.dump))]

/-- A snapshot without blanks. -/
def compact (s : Snapshot) : String :=
  String.ofList s.dump.compact

/-- A snapshot with one item a line. -/
def indented (s : Snapshot) : String :=
  String.ofList (s.dump.indented 0)

end Snapshot

end LittleMan
