/-!
# Registers

The accumulator and the program counter. The counter may step past the last mailbox; a machine
notices when it next fetches. It stands still at its own end, `Registers.counterEnd`.

## Main definitions

* `Registers` — accumulator and program counter
* `Registers.advance`, `Registers.jump` — moving the counter
-/

namespace LittleMan

/-- The registers of the computer, zero to begin with. -/
structure Registers where
  /-- The accumulator. -/
  acc : Int := 0
  /-- The program counter. -/
  pc : Nat := 0
  deriving DecidableEq, Inhabited

namespace Registers

/-- The greatest value of the program counter. -/
def counterEnd : Nat := 0xFFFFFFFFFFFFFFFF

/-- Step the program counter to the next mailbox. -/
def advance (r : Registers) : Registers :=
  { r with pc := min (r.pc + 1) counterEnd }

/-- Set the program counter. -/
def jump (r : Registers) (a : Nat) : Registers :=
  { r with pc := a }

@[simp] theorem acc_advance (r : Registers) : r.advance.acc = r.acc := rfl

@[simp] theorem acc_jump (r : Registers) (a : Nat) : (r.jump a).acc = r.acc := rfl

@[simp] theorem pc_jump (r : Registers) (a : Nat) : (r.jump a).pc = a := rfl

/-- Short of its end the counter moves by one. -/
theorem pc_advance {r : Registers} (h : r.pc < counterEnd) : r.advance.pc = r.pc + 1 := by
  simp only [advance]
  omega

end Registers

end LittleMan
