import LittleMan.Channels
import LittleMan.Diagnostic
import LittleMan.Instruction
import LittleMan.Memory
import LittleMan.Provider
import LittleMan.Registers

/-!
# The machine

A machine is a policy, registers, memory, channels, a provider of input, and an account of what
happened: its state, its diagnostics, a count of the instructions carried out and the last of them.
A word enters a machine only through its policy, which clamps it and reports the clamping. That
holds for programs, for queued input and for what a provider answers.

## Main definitions

* `Machine`, `Machine.new` — the state of a computer, and a fresh one
* `Machine.loadAt`, `Machine.queue`, `Machine.attach`, `Machine.reset` — operations other than steps
-/

namespace LittleMan

/-- What a machine is doing. -/
inductive State
  /-- It can carry out an instruction. -/
  | running
  /-- It carried out a halt. -/
  | halted
  /-- Its program counter left memory. -/
  | faulted
  deriving DecidableEq, Inhabited

/-- The name of a state in reports. -/
def State.name : State → String
  | .running => "Running"
  | .halted => "Halted"
  | .faulted => "Faulted"

/-- A Little Man Computer. -/
structure Machine where
  /-- How words are kept and calculated with. -/
  policy : Policy
  /-- Accumulator and program counter. -/
  registers : Registers := {}
  /-- The mailboxes. -/
  memory : Memory := Memory.empty
  /-- Running, halted or faulted. -/
  state : State := .running
  /-- Pending input and output so far. -/
  channels : Channels := {}
  /-- Asked when no input is pending. -/
  provider : Provider := .silent
  /-- What was reported since the last reset, oldest first. -/
  diagnostics : Array Diagnostic := #[]
  /-- The number of instructions carried out since the last reset. -/
  cycles : Nat := 0
  /-- The instruction carried out last. -/
  last : Option Instruction := none
  deriving Inhabited

namespace Machine

/-- A fresh machine: zero everywhere, running, and with nothing to answer a starved input. -/
def new (p : Policy) : Machine :=
  { policy := p }

/-- Replace the provider of input. -/
def attach (m : Machine) (p : Provider) : Machine :=
  { m with provider := p }

/-- Back to a fresh machine, keeping policy and provider. -/
def reset (m : Machine) : Machine :=
  { policy := m.policy, provider := m.provider }

/-- Report a condition. -/
def report (m : Machine) (d : Diagnostic) : Machine :=
  { m with diagnostics := m.diagnostics.push d }

/-- Load words from mailbox `start` on. Every word is clamped, and its clamping reported, also a
word that does not fit in memory and is dropped. -/
def loadAt (m : Machine) (start : Nat) (ws : List Int) : Machine :=
  { m with
    memory := m.memory.load start (ws.map m.policy.clamp)
    diagnostics := m.diagnostics ++ Diagnostic.clampings m.policy ws }

/-- Load words from mailbox zero on. -/
def load (m : Machine) (ws : List Int) : Machine :=
  m.loadAt 0 ws

/-- Queue input values behind those that wait, clamped. -/
def queue (m : Machine) (ws : List Int) : Machine :=
  { m with
    channels := m.channels.pushAll (ws.map m.policy.clamp)
    diagnostics := m.diagnostics ++ Diagnostic.clampings m.policy ws }

/-- Whether the machine can carry out an instruction. -/
def isRunning (m : Machine) : Bool :=
  m.state = .running

/-- Whether the machine carried out a halt. -/
def isHalted (m : Machine) : Bool :=
  m.state = .halted

/-- Whether the program counter left memory. -/
def isFaulted (m : Machine) : Bool :=
  m.state = .faulted

/-- The accumulator. -/
def acc (m : Machine) : Int :=
  m.registers.acc

/-- The program counter. -/
def pc (m : Machine) : Nat :=
  m.registers.pc

/-- The input that waits, front first. -/
def pending (m : Machine) : List Int :=
  m.channels.input

/-- Everything that was put out. -/
def output (m : Machine) : Array Int :=
  m.channels.output

/-- A one-line summary of a machine. -/
def describe (m : Machine) : String :=
  "Cpu \x7b policy: " ++ m.policy.label ++ ", state: " ++ m.state.name ++ ", cycles: "
    ++ Numeral.plain m.cycles ++ ", regs: Registers \x7b acc: " ++ Numeral.plain m.acc ++ ", pc: "
    ++ Numeral.plain m.pc ++ " \x7d, mem: " ++ m.memory.describe ++ " \x7d"

@[simp] theorem queue_nil (m : Machine) : m.queue [] = m := by
  simp [queue]

@[simp] theorem pending_queue (m : Machine) (ws : List Int) :
    (m.queue ws).pending = m.pending ++ ws.map m.policy.clamp :=
  m.channels.input_pushAll _

@[simp] theorem output_queue (m : Machine) (ws : List Int) : (m.queue ws).output = m.output :=
  m.channels.output_pushAll _

/-- Queueing two batches one after the other is queueing both at once. -/
theorem queue_queue (m : Machine) (vs ws : List Int) :
    (m.queue vs).queue ws = m.queue (vs ++ ws) := by
  simp [queue, Channels.pushAll_pushAll, ← Array.toList_inj]

@[simp] theorem reset_reset (m : Machine) : m.reset.reset = m.reset := rfl

@[simp] theorem reset_new (p : Policy) : (new p).reset = new p := rfl

end Machine

end LittleMan
