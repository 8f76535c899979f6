import LittleMan.Listing
import LittleMan.Machine.Run

/-!
# The debugger

A debugger holds a machine together with the memory and the input queue it had when debugging
began, and goes back to them on a reset. It steps on demand, or keeps stepping with every tick
while it is running. What it last did is its status; the wording is made when it is shown.

## Main definitions

* `Debugger`, `Debugger.start` — a debugger around a machine
* `Debugger.step`, `Debugger.run`, `Debugger.tick`, `Debugger.reset`, `Debugger.scroll`
* `Debugger.listing` — the part of memory around the program counter, as assembly
-/

namespace LittleMan

/-- What a debugger last did. -/
inductive Status
  /-- Nothing yet. -/
  | ready
  /-- It was asked to step a machine that had stopped. -/
  | stopped (state : State)
  /-- It carried out an instruction at `pc`. -/
  | stepped (pc : Nat) (i : Instruction)
  /-- It carried out an instruction at `pc` and the machine reported a condition. -/
  | reported (pc : Nat) (d : Diagnostic)
  /-- A step went wrong. -/
  | failed (e : StepError)
  /-- It began to run. -/
  | running
  /-- It noticed that the machine had stopped. -/
  | finished (state : State) (cycles : Nat)
  /-- It went back to the start. -/
  | reset
  deriving DecidableEq, Inhabited

/-- The wording of a status. -/
def Status.text : Status → String
  | ready => "Ready. Press 's' to step, 'r' to run, 'q' to quit."
  | stopped state => "CPU stopped: " ++ state.name
  | stepped pc i => "PC=" ++ Numeral.wide 2 pc ++ ": " ++ i.text
  | reported pc d => "PC=" ++ Numeral.wide 2 pc ++ ": " ++ d.text
  | failed e => "Error: " ++ e.message
  | running => "Running..."
  | finished state cycles => state.name ++ " after " ++ Numeral.plain cycles ++ " cycles"
  | reset => "Reset. Ready."

/-- A debugger around a machine. -/
structure Debugger where
  /-- The machine. -/
  machine : Machine
  /-- The memory when debugging began. -/
  image : List Int
  /-- The input queue when debugging began. -/
  inputs : List Int
  /-- Whether every tick takes a step. -/
  running : Bool := false
  /-- What was done last. -/
  status : Status := .ready
  /-- The first mailbox that the view of memory shows. -/
  scroll : Nat := 0
  /-- Whether to leave the debugger. -/
  quitting : Bool := false
  deriving Inhabited

/-- One line of the listing around the program counter. -/
structure ListingRow where
  /-- The mailbox. -/
  address : Nat
  /-- The assembly text of the word in it. -/
  text : String
  /-- Whether the program counter points to it. -/
  isCurrent : Bool
  deriving DecidableEq

namespace Debugger

/-- Begin to debug a machine. -/
def start (m : Machine) : Debugger where
  machine := m
  image := m.memory.toList
  inputs := m.pending

/-- Do something to the machine that is debugged. -/
def onMachine (d : Debugger) (f : Machine → Machine) : Debugger :=
  { d with machine := f d.machine }

/-- Take one step. -/
def step (d : Debugger) : Debugger :=
  let m := d.machine
  if m.isRunning then
    match m.step with
    | (.ok i, next) =>
      let status :=
        match next.diagnostics[m.diagnostics.size]? with
        | some condition => .reported m.pc condition
        | none => .stepped m.pc i
      { d with machine := next, status := status }
    | (.error e, next) => { d with machine := next, status := .failed e, running := false }
  else { d with status := .stopped m.state, running := false }

/-- Begin to run. -/
def run (d : Debugger) : Debugger :=
  { d with running := true, status := .running }

/-- Take one step if running. A machine that has stopped ends the run. -/
def tick (d : Debugger) : Debugger :=
  if d.running then
    if d.machine.isRunning then d.step
    else
      { d with
        running := false
        status := .finished d.machine.state d.machine.cycles }
  else d

/-- Tick while running, at most `limit` times. Answers how many times. -/
def ticks : Nat → Debugger → Nat × Debugger
  | 0, d => (0, d)
  | limit + 1, d =>
    if d.running then
      let (count, after) := ticks limit d.tick
      (count + 1, after)
    else (0, d)

/-- Go back to the memory and the input queue that debugging began with. -/
def reset (d : Debugger) : Debugger :=
  { d with
    machine := (d.machine.reset.load d.image).queue d.inputs
    running := false
    status := .reset }

/-- Move the view of memory, staying within memory. -/
def scrollBy (d : Debugger) (delta : Int) : Debugger :=
  { d with scroll := min ((d.scroll : Int) + delta).toNat (Memory.size - 1) }

/-- The first mailbox of a listing of `count` lines: half of them above the program counter, as far
as memory goes. -/
def listingStart (d : Debugger) (count : Nat) : Nat :=
  min (d.machine.pc - count / 2) (Memory.size - count)

/-- The listing around the program counter, at most `count` lines. -/
def listing (d : Debugger) (count : Nat) : List ListingRow :=
  let first := d.listingStart count
  (List.range' first (min (first + count) Memory.size - first)).map fun a =>
    ⟨a, Listing.assembly (d.machine.memory.get a), a = d.machine.pc⟩

@[simp] theorem machine_start (m : Machine) : (start m).machine = m := rfl

@[simp] theorem machine_run (d : Debugger) : d.run.machine = d.machine := rfl

@[simp] theorem running_run (d : Debugger) : d.run.running = true := rfl

@[simp] theorem machine_scrollBy (d : Debugger) (delta : Int) :
    (d.scrollBy delta).machine = d.machine := rfl

/-- The view of memory always begins at a mailbox. -/
theorem scroll_scrollBy_lt (d : Debugger) (delta : Int) : (d.scrollBy delta).scroll < 100 := by
  simp only [scrollBy, Memory.size]
  omega

end Debugger

end LittleMan
