import LittleMan.Proofs.Checked.Machine
import LittleMan.Proofs.Sample.Image

/-!
# What a program sees

To say what a program computes one wants to carry out its instructions by hand, with letters for
the words it works on. A machine is too much for that: it has a memory in which the program itself
lies, words that are kept in range, and an account of what was done. A desk is what is left if one
knows that the program is not overwritten and does not ask its provider: two registers, the
mailboxes, the input that waits and the output so far, with arithmetic on exact integers.

The desk is not a second machine. `AtWork.follow` says that a machine which has a program in memory
does with it what is done on its desk, instruction by instruction; so what is found out by following
a program on the desk is a run of the machine.

A program ends where it halts. What a machine comes to then, on an unlimited run and on any limited
run that is long enough, is one statement (`Yields`), which the samples are described by. Runs that
check the count of cycles come to the same, unless the program takes more instructions than can be
counted.

## Main definitions

* `Desk`, `Machine.desk` — what a program sees, and what it sees of a machine
* `Desk.next`, `Desk.follow` — one instruction of a program, and a number of them
* `Desk.Completes` — a program comes to its halt
* `Machine.AtWork` — a machine has a program in memory and runs
* `Machine.Finishes`, `Machine.Yields` — what a machine comes to

## Main results

* `Machine.AtWork.follow` — a machine does what is done on its desk
* `Sample.yields` — what a sample comes to, from what its program comes to
-/

namespace LittleMan

/-- What a program sees of the machine that it runs on. -/
structure Desk where
  /-- The accumulator. -/
  acc : Int
  /-- The program counter. -/
  pc : Nat
  /-- The words in the mailboxes. -/
  cell : Nat → Int
  /-- The input that waits, front first. -/
  pending : List Int
  /-- Everything that was put out. -/
  output : List Int

namespace Desk

/-- The desk after one instruction of a program that takes up `size` mailboxes. There is none if the
program halts, stores into itself, finds no input, or is at a word that is no instruction. -/
def carryOut (size : Nat) (p : Policy) (d : Desk) : Instruction → Option Desk
  | .add a => some { d with acc := p.exact (d.acc + d.cell a), pc := d.pc + 1 }
  | .sub a => some { d with acc := p.exact (d.acc - d.cell a), pc := d.pc + 1 }
  | .sta a =>
    if size ≤ a then some { d with cell := Function.update d.cell a d.acc, pc := d.pc + 1 }
    else none
  | .lda a => some { d with acc := d.cell a, pc := d.pc + 1 }
  | .bra a => some { d with pc := a }
  | .brz a => some { d with pc := if d.acc = 0 then a else d.pc + 1 }
  | .brp a => some { d with pc := if p.Positive d.acc then a else d.pc + 1 }
  | .inp =>
    match d.pending with
    | w :: rest => some { d with acc := w, pending := rest, pc := d.pc + 1 }
    | [] => none
  | .out => some { d with output := d.output ++ [d.acc], pc := d.pc + 1 }
  | .hlt | .unknown _ => none

/-- The desk after the instruction that its counter points to in the program `code`. -/
def next (code : List Instruction) (p : Policy) (d : Desk) : Option Desk :=
  code[d.pc]?.bind (d.carryOut code.length p)

/-- The desk after `n` instructions. -/
def follow (code : List Instruction) (p : Policy) : Nat → Desk → Option Desk
  | 0, d => some d
  | n + 1, d => (next code p d).bind (follow code p n)

/-- A program comes to its halt after `n` instructions, from its first mailbox on, with the words
`cell` in the mailboxes and some input that waits. There is the given output then, and what is left
of the input. -/
def Completes (code : List Instruction) (p : Policy) (cell : Nat → Int) (input : List Int) (n : Nat)
    (output pending : List Int) : Prop :=
  ∃ d, follow code p n ⟨0, 0, cell, input, []⟩ = some d ∧ code[d.pc]? = some .hlt ∧
    d.output = output ∧ d.pending = pending

variable {code : List Instruction} {p : Policy}

@[simp] theorem follow_zero (d : Desk) : follow code p 0 d = some d := rfl

theorem follow_succ (n : Nat) (d : Desk) :
    follow code p (n + 1) d = (next code p d).bind (follow code p n) := rfl

/-- Instructions are followed one after the other. -/
theorem follow_trans {a b : Nat} {d₀ d₁ d₂ : Desk} (h₁ : follow code p a d₀ = some d₁)
    (h₂ : follow code p b d₁ = some d₂) : follow code p (a + b) d₀ = some d₂ := by
  induction a generalizing d₀ with
  | zero =>
    cases h₁
    rw [Nat.zero_add, h₂]
  | succ a ih =>
    obtain ⟨d, hd, ha⟩ := Option.bind_eq_some_iff.1 h₁
    rw [Nat.succ_add, follow_succ, hd, Option.bind_some, ih ha]

end Desk

namespace Machine

/-- What a program sees of a machine. -/
def desk (m : Machine) : Desk where
  acc := m.acc
  pc := m.pc
  cell := m.memory.get
  pending := m.pending
  output := m.output.toList

/-- Queueing changes only what waits. -/
theorem desk_queue (m : Machine) (ws : List Int) :
    (m.queue ws).desk = { m.desk with pending := m.pending ++ ws.map m.policy.clamp } := by
  rw [desk, pending_queue, output_queue]
  rfl

/-- The machine has the program `code` in memory from mailbox zero on and can go on with it; it
works under the policy `p` and has made the reports `ds`. -/
structure AtWork (code : List Instruction) (p : Policy) (ds : List Diagnostic) (m : Machine) :
    Prop where
  consistent : m.Consistent
  running : m.state = .running
  policy : m.policy = p
  reports : m.diagnostics.toList = ds
  /-- Memory has room for the program. -/
  fits : code.length ≤ 100
  /-- The words of the program read as its instructions. -/
  reads : ∀ a i, code[a]? = some i → Instruction.decode (m.memory.get a) = i

section

variable {code : List Instruction} {p : Policy} {ds : List Diagnostic} {m after : Machine}

/-! ### Following a machine -/

/-- What an instruction does on the desk is what the rules say of it. -/
theorem Follows.desk_eq {i : Instruction} {size : Nat} {d : Desk} (h : m.Follows i after)
    (hd : m.desk.carryOut size m.policy i = some d) : after.desk = d := by
  have hcell : after.memory.get = m.cellAfter i := funext h.cell
  rw [desk, h.acc, h.pc, hcell, h.pending, h.output]
  cases i with
  | inp =>
    cases hq : m.pending with
    | nil => simp [Desk.carryOut, desk, hq] at hd
    | cons w rest =>
      simp only [Desk.carryOut, desk, hq, Option.some.injEq] at hd
      simp only [← hd, accAfter, input?, hq, pendingAfter, emitted, List.append_nil]
      rfl
  | sta a =>
    simp only [Desk.carryOut] at hd
    split at hd
    · cases hd
      have hupdate : m.cellAfter (.sta a) = Function.update m.memory.get a m.acc := by
        funext b
        rw [Function.update_apply]
        rfl
      simp only [hupdate, emitted, List.append_nil]
      rfl
    · cases hd
  | hlt => cases hd
  | unknown raw => cases hd
  | out =>
    cases hd
    rfl
  | _ =>
    cases hd
    simp only [emitted, List.append_nil]
    rfl

/-- An instruction that is carried out on the desk neither stops the machine nor makes it report
anything, and it leaves the mailboxes of the program alone. -/
theorem quiet_of_carryOut {i : Instruction} {size : Nat} {d : Desk}
    (hd : m.desk.carryOut size m.policy i = some d) :
    stateAfter i = .running ∧ m.reported i = [] ∧
      ∀ a < size, m.cellAfter i a = m.memory.get a := by
  cases i with
  | inp =>
    cases hq : m.pending with
    | nil => simp [Desk.carryOut, desk, hq] at hd
    | cons w rest => exact ⟨rfl, by simp [reported, hq], fun _ _ => rfl⟩
  | sta b =>
    simp only [Desk.carryOut] at hd
    split at hd
    · next hb =>
      refine ⟨rfl, rfl, fun a ha => ?_⟩
      exact if_neg (by omega)
    · cases hd
  | hlt => cases hd
  | unknown raw => cases hd
  | _ => exact ⟨rfl, rfl, fun _ _ => rfl⟩

/-- A machine at work carries out the instruction of its program that the counter points to. -/
theorem AtWork.step_follows {i : Instruction} (h : m.AtWork code p ds) (hi : code[m.pc]? = some i) :
    ∃ after, m.step = (.ok i, after) ∧ m.Follows i after := by
  have hpc : m.pc < code.length := (List.getElem?_eq_some_iff.1 hi).1
  have hfits := h.fits
  obtain ⟨j, after, hj, hstep, hn⟩ :=
    Machine.step_follows h.consistent.words h.running (by omega)
  obtain rfl : j = i := (Instruction.reads_iff.1 hj).symm.trans (h.reads m.pc i hi)
  exact ⟨after, hstep, hn⟩

/-- **One instruction** at work is one instruction on the desk. -/
theorem AtWork.step {d : Desk} (h : m.AtWork code p ds) (hd : m.desk.next code p = some d) :
    ∃ i after, m.step = (.ok i, after) ∧ after.AtWork code p ds ∧ after.desk = d := by
  obtain ⟨i, hi, hcarry⟩ := Option.bind_eq_some_iff.1 hd
  obtain ⟨after, hstep, hn⟩ := h.step_follows hi
  rw [← h.policy] at hcarry
  obtain ⟨hstate, hreported, hcell⟩ := quiet_of_carryOut hcarry
  have hconsistent := h.consistent.step
  rw [hstep] at hconsistent
  refine ⟨i, after, hstep, ⟨hconsistent, hn.state.trans hstate, hn.policy.trans h.policy, ?_,
    h.fits, ?_⟩, hn.desk_eq hcarry⟩
  · rw [hn.diagnostics, hreported, List.append_nil, h.reports]
  · intro a j hj
    have ha : a < code.length := (List.getElem?_eq_some_iff.1 hj).1
    rw [hn.cell, hcell a ha]
    exact h.reads a j hj

/-- **Following the program.** A machine at work does what is done on its desk. -/
theorem AtWork.follow {n : Nat} {d : Desk} (h : m.AtWork code p ds)
    (hd : m.desk.follow code p n = some d) :
    ∃ after, m.steps? n = some after ∧ after.AtWork code p ds ∧ after.desk = d := by
  induction n generalizing m with
  | zero =>
    cases hd
    exact ⟨m, rfl, h, rfl⟩
  | succ n ih =>
    obtain ⟨d₁, hd₁, hd⟩ := Option.bind_eq_some_iff.1 hd
    obtain ⟨i, next, hstep, hnext, rfl⟩ := h.step hd₁
    obtain ⟨after, hafter, hwork, hdesk⟩ := ih hnext hd
    exact ⟨after, steps?_succ_eq_some.2 ⟨i, next, hstep, hafter⟩, hwork, hdesk⟩

/-! ### What a machine comes to -/

/-- A machine halts with its instruction number `steps`: an unlimited run comes to `after`, and as
long as the count of cycles can hold so many, so does an unlimited run that checks it, and every
limited run that allows for so many. -/
structure Finishes (m : Machine) (steps : Nat) (after : Machine) : Prop where
  halted : after.state = .halted
  run : m.run = some (.ok steps, after)
  runChecked : m.cycles + steps ≤ cyclesEnd → m.runChecked = .ok (.ok steps, after)
  runLimited : m.cycles + steps ≤ cyclesEnd → ∀ limit, steps ≤ limit →
    m.runLimited limit = (.ok steps, after)

/-- What running a machine comes to, in any of the ways of `Finishes`: it halts after `steps`
instructions with the given output, input that waits, and reports. -/
def Yields (m : Machine) (steps : Nat) (output pending : List Int) (reports : List Diagnostic) :
    Prop :=
  ∃ after, m.Finishes steps after ∧ after.output.toList = output ∧ after.pending = pending ∧
    after.diagnostics.toList = reports

/-- A machine whose steps lead to a halt has finished with them. -/
theorem finishes_of_steps? {n : Nat} (h : m.steps? n = some after)
    (hhalted : after.state = .halted) : m.Finishes n after := by
  have hstop : ¬after.isRunning = true := fun hr => by simp [isRunning_iff.1 hr] at hhalted
  have hcycles : after.cycles = m.cycles + n := cycles_steps? h
  have hrun : m.run = some (.ok n, after) := by
    have hstuck : after.Stuck := fun hr => absurd hr hstop
    rw [run, runOn_of_steps? h, hstuck.runOn, closing, if_neg hstop, Option.map_some, tally,
      hcycles, Nat.add_sub_cancel_left]
  refine ⟨hhalted, hrun, fun hend => ?_, fun hend limit hn => ?_⟩
  · have hguarded := guarded_run (m := m) (by omega)
    rw [hrun] at hguarded
    generalize m.runChecked = checked at hguarded
    cases hguarded with
    | back => rfl
    | overrun hplain =>
      have : cyclesEnd < after.cycles := hplain _ rfl
      omega
  · rw [runLimited, runUntil_of_steps? h (by omega),
      runUntil_of_stop (.inl (Bool.not_eq_true _ ▸ hstop)), tally, hcycles, Nat.add_sub_cancel_left]

/-- **A program that is followed to its halt** is what running the machine comes to. -/
theorem AtWork.yields {n : Nat} {d : Desk} (h : m.AtWork code p ds)
    (hd : m.desk.follow code p n = some d) (hhlt : code[d.pc]? = some .hlt) :
    m.Yields (n + 1) d.output d.pending ds := by
  obtain ⟨middle, hmiddle, hwork, rfl⟩ := h.follow hd
  obtain ⟨after, hstep, hn⟩ := hwork.step_follows hhlt
  have hsteps : m.steps? (n + 1) = some after := by
    rw [steps?_add, hmiddle, Option.bind_some, steps?_succ_of_ok hstep, steps?_zero]
  refine ⟨after, finishes_of_steps? hsteps hn.state, ?_, hn.pending, ?_⟩
  · rw [hn.output]
    exact List.append_nil _
  · rw [hn.diagnostics, hwork.reports]
    exact List.append_nil _

end

end Machine

/-! ### Samples -/

namespace Sample

variable {s : Sample} {code : List Instruction}

/-- A machine that was made ready for a sample is at work on what its layout reads as. -/
theorem atWork_prepare (h : s.Portable) (hcode : code <+: s.layout.toList.map Instruction.decode)
    (inputs : List Int) (m : Machine) :
    (s.prepare inputs m).AtWork code m.policy (Diagnostic.clampings m.policy inputs) := by
  have hconsistent : (s.prepare inputs m).Consistent :=
    (Machine.kept_consistent.preset s.data ((Machine.consistent_reset m).loadAt 0 s.cells)).queue
      inputs
  have hfits : code.length ≤ 100 := by
    have hlength := hcode.length_le
    rwa [List.length_map, Memory.toList, Vector.length_toList] at hlength
  have hreads : ∀ a i, code[a]? = some i → Instruction.decode (s.layout.get a) = i := by
    intro a i hi
    obtain ⟨ha, -⟩ := List.getElem?_eq_some_iff.1 hi
    obtain ⟨rest, hrest⟩ := hcode
    have happend : (code ++ rest)[a]? = code[a]? := List.getElem?_append_left ha
    rw [← happend, hrest, List.getElem?_map, Memory.getElem?_toList,
      Memory.get?_eq_some_get (by omega)] at hi
    exact Option.some.inj hi
  have hprepare := prepare_of_portable h inputs m
  refine ⟨hconsistent, ?_, ?_, ?_, hfits, ?_⟩
  · rw [hprepare]
    rfl
  · rw [hprepare]
    rfl
  · rw [hprepare]
    exact Array.toList_appendList
  · rw [hprepare]
    exact hreads

/-- **What a sample comes to**, on any machine that is made ready for it: what its program comes to,
with the layout of the sample in the mailboxes and the input clamped. -/
theorem yields (h : s.Portable) (hcode : code <+: s.layout.toList.map Instruction.decode)
    (inputs : List Int) {m : Machine} {n : Nat} {output pending : List Int}
    (hc : Desk.Completes code m.policy s.layout.get (inputs.map m.policy.clamp) n output pending) :
    (s.prepare inputs m).Yields (n + 1) output pending (Diagnostic.clampings m.policy inputs) := by
  obtain ⟨d, hd, hhlt, rfl, rfl⟩ := hc
  have hdesk : (s.prepare inputs m).desk =
      ⟨0, 0, s.layout.get, inputs.map m.policy.clamp, []⟩ := by
    rw [prepare_of_portable h, Machine.desk_queue]
    rfl
  exact (atWork_prepare h hcode inputs m).yields (hdesk ▸ hd) hhlt

end Sample

end LittleMan
