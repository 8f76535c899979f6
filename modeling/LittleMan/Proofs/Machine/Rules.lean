import LittleMan.Machine.Step
import LittleMan.Proofs.Digits
import LittleMan.Proofs.ExactArithmetic

/-!
# The rules of an instruction

A step goes through the instructions one by one and says of each what it changes. The rules here go
through the parts of a machine and say of each what an instruction leaves in it, with arithmetic on
exact integers. `Follows` puts them together: it determines the next machine completely, so that
"nothing else changes" is part of it and needs no clause of its own.

A machine follows the rules as long as its accumulator and its mailboxes hold words that its policy
keeps (`WordsKept`). With larger words the decimal adder could wrap around and be inexact.

## Main definitions

* `Machine.accAfter`, `Machine.pcAfter`, `Machine.cellAfter` and their like — what an instruction
  leaves in one part of a machine
* `Machine.Follows` — the rules of an instruction, put together
* `Machine.WordsKept` — the accumulator and the mailboxes hold words that the policy keeps

## Main results

* `Machine.Follows.eq` — the rules determine the next machine
* `Machine.carried_follows`, `Machine.step_follows` — a step follows them
-/

namespace LittleMan

namespace Machine

/-! ### What an instruction leaves in each part -/

/-- The value that an input instruction takes: the front of the queue, or else what the provider
answers, clamped. -/
def input? (m : Machine) : Option Int :=
  match m.pending with
  | w :: _ => some w
  | [] => m.provider.ask.1.map m.policy.clamp

/-- The accumulator after an instruction. -/
def accAfter (m : Machine) : Instruction → Int
  | .add a => m.policy.exact (m.acc + m.memory.get a)
  | .sub a => m.policy.exact (m.acc - m.memory.get a)
  | .lda a => m.memory.get a
  | .inp => m.input?.getD m.acc
  | _ => m.acc

/-- The program counter after an instruction: the mailbox named by a branch that is taken, and else
the next one. -/
def pcAfter (m : Machine) : Instruction → Nat
  | .bra a => a
  | .brz a => if m.acc = 0 then a else m.pc + 1
  | .brp a => if m.policy.Positive m.acc then a else m.pc + 1
  | _ => m.pc + 1

/-- The word in mailbox `a` after an instruction. -/
def cellAfter (m : Machine) : Instruction → Nat → Int
  | .sta b, a => if a = b then m.acc else m.memory.get a
  | _, a => m.memory.get a

/-- The state after an instruction. -/
def stateAfter : Instruction → State
  | .hlt => .halted
  | _ => .running

/-- The input that waits after an instruction. -/
def pendingAfter (m : Machine) : Instruction → List Int
  | .inp => m.pending.tail
  | _ => m.pending

/-- What an instruction puts out. -/
def emitted (m : Machine) : Instruction → List Int
  | .out => [m.acc]
  | _ => []

/-- The provider after an instruction. It is asked once by an input instruction that finds the queue
empty, and otherwise not at all. -/
def providerAfter (m : Machine) : Instruction → Provider
  | .inp => if m.pending = [] then m.provider.ask.2 else m.provider
  | _ => m.provider

/-- What an instruction reports. -/
def reported (m : Machine) : Instruction → List Diagnostic
  | .inp =>
    if m.pending = [] then
      match m.provider.ask.1 with
      | some w => Diagnostic.clampings m.policy [w]
      | none => [.inputStarved m.pc]
    else []
  | .unknown raw => [.unknownInstruction m.pc raw]
  | _ => []

/-- An instruction reports one condition at most. -/
theorem reported_cases (m : Machine) (i : Instruction) :
    m.reported i = [] ∨ ∃ condition, m.reported i = [condition] := by
  have hlength : (m.reported i).length ≤ 1 := by
    cases i with
    | inp =>
      simp only [reported]
      split
      · split
        · exact List.length_filterMap_le _ [_]
        · exact Nat.le_refl 1
      · exact Nat.zero_le 1
    | unknown raw => exact Nat.le_refl 1
    | _ => exact Nat.zero_le 1
  rcases Nat.le_one_iff_eq_zero_or_eq_one.1 hlength with hnone | hone
  · exact .inl (List.length_eq_zero_iff.1 hnone)
  · exact .inr (List.length_eq_one_iff.1 hone)

/-- The rules of an instruction: `next` is what carrying out `i` makes of a running machine `m`. -/
structure Follows (m : Machine) (i : Instruction) (next : Machine) : Prop where
  policy : next.policy = m.policy
  acc : next.acc = m.accAfter i
  pc : next.pc = m.pcAfter i
  cell : ∀ a, next.memory.get a = m.cellAfter i a
  state : next.state = stateAfter i
  pending : next.pending = m.pendingAfter i
  output : next.output.toList = m.output.toList ++ m.emitted i
  provider : next.provider = m.providerAfter i
  diagnostics : next.diagnostics.toList = m.diagnostics.toList ++ m.reported i
  cycles : next.cycles = m.cycles + 1
  last : next.last = some i

/-- A machine is known by its parts. -/
theorem ext_parts {m n : Machine} (hpolicy : m.policy = n.policy) (hacc : m.acc = n.acc)
    (hpc : m.pc = n.pc) (hcell : ∀ a, m.memory.get a = n.memory.get a) (hstate : m.state = n.state)
    (hpending : m.pending = n.pending) (houtput : m.output.toList = n.output.toList)
    (hprovider : m.provider = n.provider)
    (hdiagnostics : m.diagnostics.toList = n.diagnostics.toList) (hcycles : m.cycles = n.cycles)
    (hlast : m.last = n.last) : m = n := by
  obtain ⟨_, ⟨_, _⟩, mem, _, ⟨_, _⟩, _, _, _, _⟩ := m
  obtain ⟨_, ⟨_, _⟩, mem', _, ⟨_, _⟩, _, _, _, _⟩ := n
  have hmemory : mem = mem' := Memory.ext_get fun a _ => hcell a
  simp_all only [Machine.acc, Machine.pc, Machine.pending, Machine.output, Array.toList_inj]

/-- **The rules determine the next machine.** -/
theorem Follows.eq {m n₁ n₂ : Machine} {i : Instruction} (h₁ : m.Follows i n₁)
    (h₂ : m.Follows i n₂) : n₁ = n₂ :=
  ext_parts (h₁.policy.trans h₂.policy.symm) (h₁.acc.trans h₂.acc.symm) (h₁.pc.trans h₂.pc.symm)
    (fun a => (h₁.cell a).trans (h₂.cell a).symm) (h₁.state.trans h₂.state.symm)
    (h₁.pending.trans h₂.pending.symm) (h₁.output.trans h₂.output.symm)
    (h₁.provider.trans h₂.provider.symm) (h₁.diagnostics.trans h₂.diagnostics.symm)
    (h₁.cycles.trans h₂.cycles.symm) (h₁.last.trans h₂.last.symm)

/-! ### A step follows the rules -/

/-- The accumulator and the mailboxes hold words that the policy keeps. -/
structure WordsKept (m : Machine) : Prop where
  acc : m.policy.Keeps m.acc
  cell : ∀ a, m.policy.Keeps (m.memory.get a)

/-- The machine after carrying out an instruction that it fetched. -/
def carried (m : Machine) (i : Instruction) : Machine :=
  (m.advance.execute m.pc i).account i

/-- An input instruction in one equation. -/
theorem execute_inp (m : Machine) :
    m.advance.execute m.pc .inp =
      { m with
        registers := ⟨m.accAfter .inp, m.registers.advance.pc⟩
        channels := { m.channels with input := m.pendingAfter .inp }
        provider := m.providerAfter .inp
        diagnostics := m.diagnostics ++ m.reported .inp } := by
  obtain ⟨_, _, _, _, ⟨input, _⟩, provider, _, _, _⟩ := m
  cases input with
  | cons w rest =>
    simp [execute, takeInput, advance, withAcc, accAfter, input?, pendingAfter, pending,
      providerAfter, reported]
  | nil =>
    -- the answer and the provider that is left belong to one question
    rcases h : provider.ask with ⟨answer, next⟩
    cases answer with
    | some w =>
      simp [execute, takeInput, advance, withAcc, accAfter, input?, pendingAfter, pending,
        providerAfter, reported, h]
    | none =>
      simp [execute, takeInput, advance, report, accAfter, input?, pendingAfter, pending,
        providerAfter, reported, acc, pc, h]
      rfl

/-- The counter moves on, unless a branch is taken. -/
theorem pc_carried {m : Machine} (hpc : m.pc < 100) (i : Instruction) :
    (m.carried i).pc = m.pcAfter i := by
  have hnext : m.registers.advance.pc = m.pc + 1 :=
    Registers.pc_advance (Nat.lt_trans hpc (by decide))
  have hjump (c : Bool) (a : Nat) :
      (m.advance.jumpIf c a).pc = if c = true then a else m.pc + 1 := by
    cases c
    · exact hnext
    · rfl
  cases i with
  | brz a =>
    refine (hjump _ a).trans ?_
    simp only [decide_eq_true_eq]
    rfl
  | brp a =>
    refine (hjump _ a).trans ?_
    simp only [Policy.isPositive_iff]
    rfl
  | bra a => rfl
  | inp =>
    rw [carried, execute_inp]
    exact hnext
  | _ => exact hnext

/-- Arithmetic is exact on words that the policy keeps. -/
theorem acc_carried {m : Machine} (hw : m.WordsKept) (i : Instruction) :
    (m.carried i).acc = m.accAfter i := by
  have hjump (c : Bool) (a : Nat) : (m.advance.jumpIf c a).acc = m.acc := by
    cases c <;> rfl
  cases i with
  | add a => exact Policy.add_eq_exact hw.acc (hw.cell a)
  | sub a => exact Policy.sub_eq_exact hw.acc (hw.cell a)
  | brz a => exact hjump _ a
  | brp a => exact hjump _ a
  | inp =>
    rw [carried, execute_inp]
    rfl
  | _ => rfl

/-- Storing changes one mailbox, and nothing else changes any. -/
theorem get_carried (m : Machine) {i : Instruction} (hi : ∀ a, i.operand = some a → a < 100)
    (a : Nat) : (m.carried i).memory.get a = m.cellAfter i a := by
  cases i with
  | sta b =>
    have hb : b < 100 := hi b rfl
    change (m.memory.set b m.acc).get a = if a = b then m.acc else m.memory.get a
    rw [Memory.get_set]
    simp only [hb, and_true, eq_comm]
  | inp =>
    rw [carried, execute_inp]
    rfl
  | _ => rfl

/-- Carrying out an instruction follows the rules, as long as it names one of the 100 mailboxes. -/
theorem carried_follows {m : Machine} (hw : m.WordsKept) (hm : m.state = .running)
    (hpc : m.pc < 100) {i : Instruction} (hi : ∀ a, i.operand = some a → a < 100) :
    m.Follows i (m.carried i) := by
  have hacc := acc_carried hw i
  have hcounter := pc_carried hpc i
  have hcell := get_carried m hi
  have hnothing {α : Type} (xs : List α) : xs = xs ++ [] := (List.append_nil xs).symm
  cases i with
  | hlt =>
    exact ⟨rfl, hacc, hcounter, hcell, rfl, rfl, hnothing _, rfl, hnothing _, rfl, rfl⟩
  | inp =>
    rw [carried, execute_inp] at hacc hcounter hcell ⊢
    exact ⟨rfl, hacc, hcounter, hcell, hm, rfl, hnothing _, rfl, Array.toList_appendList, rfl, rfl⟩
  | out =>
    exact ⟨rfl, hacc, hcounter, hcell, hm, rfl, Array.toList_push, rfl, hnothing _, rfl, rfl⟩
  | unknown raw =>
    exact ⟨rfl, hacc, hcounter, hcell, hm, rfl, hnothing _, rfl, Array.toList_push, rfl, rfl⟩
  | _ =>
    exact ⟨rfl, hacc, hcounter, hcell, hm, rfl, hnothing _, rfl, hnothing _, rfl, rfl⟩

/-- **A step follows the rules**, with the instruction that the word at the counter reads as. -/
theorem step_follows {m : Machine} (hw : m.WordsKept) (hm : m.state = .running)
    (hpc : m.pc < 100) :
    ∃ i next, Instruction.Reads (m.memory.get m.pc) i ∧ m.step = (.ok i, next) ∧
      m.Follows i next := by
  have hi : ∀ a, (Instruction.decode (m.memory.get m.pc)).operand = some a → a < 100 :=
    fun a => Instruction.operand_decode_lt
  exact ⟨_, _, Instruction.reads_iff.2 rfl, step_of_pc_lt hm hpc, carried_follows hw hm hpc hi⟩

/-- A step that carries out an instruction carries out the one at the counter. -/
theorem follows_of_step {m next : Machine} {i : Instruction} (hw : m.WordsKept)
    (hs : m.step = (.ok i, next)) :
    Instruction.decode (m.memory.get m.pc) = i ∧ m.Follows i next := by
  by_cases hm : m.state = .running
  · by_cases hpc : m.pc < 100
    · obtain ⟨j, after, hj, hstep, hn⟩ := step_follows hw hm hpc
      rw [hstep] at hs
      cases hs
      exact ⟨Instruction.reads_iff.1 hj, hn⟩
    · rw [step_of_le_pc hm (by omega)] at hs
      cases hs
  · rw [step_of_ne_running hm] at hs
    cases hs

end Machine

end LittleMan
