import LittleMan.Machine.Basic

/-!
# One instruction

One step of a machine: fetch the word at the program counter, move the counter on, read the word as
an instruction and carry it out. A branch that is taken overwrites the counter. A machine that is
not running refuses to step, and a counter outside memory faults the machine.

Stepping is a total function. It answers with the instruction that was carried out, or with the
reason why none was, and with the machine afterwards.

## Main definitions

* `Machine.execute` — carrying out one instruction
* `Machine.step` — one step
* `StepError` — why no instruction was carried out

## Main results

* `Machine.step_of_ne_running`, `Machine.step_of_le_pc`, `Machine.step_of_pc_lt` — the three cases
  of a step
* `Machine.cycles_step` — a step that carries out an instruction counts it
-/

namespace LittleMan

/-- Why a step carried out no instruction. -/
inductive StepError
  /-- The machine had stopped before. -/
  | notRunning (state : State)
  /-- The program counter was outside memory. -/
  | pcOutOfBounds (pc : Nat)
  deriving DecidableEq, Inhabited

/-- The wording of a step error. -/
def StepError.message : StepError → String
  | .notRunning state => "CPU not running: " ++ state.name
  | .pcOutOfBounds pc => "program counter out of bounds: " ++ Numeral.plain pc

namespace Machine

/-- The machine with another accumulator. -/
def withAcc (m : Machine) (w : Int) : Machine :=
  { m with registers := { m.registers with acc := w } }

/-- The machine with its counter set to a mailbox, if a condition holds. -/
def jumpIf (m : Machine) (condition : Bool) (a : Nat) : Machine :=
  { m with registers := if condition then m.registers.jump a else m.registers }

/-- Take one input value for the instruction at `pc`: from the queue, or else from the provider.
What the provider answers is clamped. Without a value the accumulator stays and the starved input
is reported. -/
def takeInput (m : Machine) (pc : Nat) : Machine :=
  match m.channels.pop with
  | (some w, channels) => { m with channels := channels }.withAcc w
  | (none, _) =>
    match m.provider.ask with
    | (some w, provider) =>
      { m with
        provider := provider
        diagnostics := m.diagnostics ++ Diagnostic.clampings m.policy [w] }.withAcc
          (m.policy.clamp w)
    | (none, provider) => { m with provider := provider }.report (.inputStarved pc)

/-- Carry out an instruction that was fetched from mailbox `pc`. -/
def execute (m : Machine) (pc : Nat) : Instruction → Machine
  | .hlt => { m with state := .halted }
  | .add a => m.withAcc (m.policy.add m.acc (m.memory.get a))
  | .sub a => m.withAcc (m.policy.sub m.acc (m.memory.get a))
  | .sta a => { m with memory := m.memory.set a m.acc }
  | .lda a => m.withAcc (m.memory.get a)
  | .bra a => m.jumpIf true a
  | .brz a => m.jumpIf (m.acc = 0) a
  | .brp a => m.jumpIf (m.policy.isPositive m.acc) a
  | .inp => m.takeInput pc
  | .out => { m with channels := m.channels.emit m.acc }
  | .unknown raw => m.report (.unknownInstruction pc raw)

/-- The machine with its counter moved to the next mailbox. -/
def advance (m : Machine) : Machine :=
  { m with registers := m.registers.advance }

/-- The machine with one more instruction to its account. -/
def account (m : Machine) (i : Instruction) : Machine :=
  { m with cycles := m.cycles + 1, last := some i }

/-- The machine stopped by a program counter outside memory. -/
def fault (m : Machine) : Machine :=
  { m with state := .faulted }.report (.pcOutOfBounds m.pc)

/-- **One step.** The answer is the instruction that was carried out, or why none was. -/
def step (m : Machine) : Except StepError Instruction × Machine :=
  if m.state = .running then
    match m.memory.get? m.pc with
    | none => (.error (.pcOutOfBounds m.pc), m.fault)
    | some raw =>
      let i := Instruction.decode raw
      (.ok i, (m.advance.execute m.pc i).account i)
  else (.error (.notRunning m.state), m)

/-- A stopped machine refuses to step and stays as it is. -/
theorem step_of_ne_running {m : Machine} (h : m.state ≠ .running) :
    m.step = (.error (.notRunning m.state), m) := by
  simp [step, h]

/-- A running machine whose counter left memory faults. -/
theorem step_of_le_pc {m : Machine} (h : m.state = .running) (hpc : 100 ≤ m.pc) :
    m.step = (.error (.pcOutOfBounds m.pc), m.fault) := by
  simp [step, h, Memory.get?_eq_none_iff.2 hpc]

/-- A running machine whose counter is in memory carries out the instruction it points to. -/
theorem step_of_pc_lt {m : Machine} (h : m.state = .running) (hpc : m.pc < 100) :
    m.step =
      let i := Instruction.decode (m.memory.get m.pc)
      (.ok i, (m.advance.execute m.pc i).account i) := by
  simp [step, h, Memory.get?_eq_some_get hpc]

/-- Carrying out an instruction does not count it; that is left to `account`. -/
@[simp] theorem cycles_execute (m : Machine) (pc : Nat) (i : Instruction) :
    (m.execute pc i).cycles = m.cycles := by
  cases i with
  | inp =>
    simp only [execute, takeInput]
    split
    · rfl
    · split <;> rfl
  | _ => rfl

/-- A step that carries out an instruction counts it. -/
theorem cycles_step {m next : Machine} {i : Instruction} (h : m.step = (.ok i, next)) :
    next.cycles = m.cycles + 1 := by
  by_cases hm : m.state = .running
  · by_cases hpc : m.pc < 100
    · rw [step_of_pc_lt hm hpc] at h
      simp only [Prod.mk.injEq] at h
      simp [← h.2, account, advance]
    · simp [step_of_le_pc hm (by omega)] at h
  · simp [step_of_ne_running hm] at h

end Machine

end LittleMan
