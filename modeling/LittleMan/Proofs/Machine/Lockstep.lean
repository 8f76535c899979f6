import LittleMan.Machine.Journal
import LittleMan.Proofs.Machine.Ledger

/-!
# Machines in lockstep

Two machines that agree in everything but their input and their reports stand at the same
instruction. So their steps go the same way: both refuse, both fault, or both carry out that
instruction, and they still agree after it if it took the same input value in both. What a
comparison of two runs has to add is only where the input comes from and what is reported.

Here a run is any number of steps, whatever they answer: a machine that stopped goes on refusing.

## Main definitions

* `Machine.setUp` — a fresh machine with a program, a provider and input
* `Machine.after`, `Machine.results` — the machine after so many steps, and what they answered
* `Machine.clamped`, `Machine.conditions` — the diagnostics about words out of range, and the others
* `Machine.Agree` — two machines agree in everything but input and reports
* `Machine.StepsAlike` — the ways in which two machines can step alike

## Main results

* `Machine.Agree.stepsAlike` — machines that agree step alike
* `Machine.Agree.follows` — and still agree after an instruction that took the same input
* `Machine.lockstep` — what single steps keep of two machines, runs keep
-/

namespace LittleMan

/-- Whether a diagnostic is about a word from outside that was out of range. -/
def Diagnostic.isClamping : Diagnostic → Bool
  | valueClamped _ _ => true
  | _ => false

namespace Machine

/-! ### Any number of steps -/

/-- A fresh machine with a memory image loaded, a provider attached and input queued. -/
def setUp (p : Policy) (image : List Int) (source : Provider) (inputs : List Int) : Machine :=
  (((new p).load image).attach source).queue inputs

theorem reachable_setUp (p : Policy) (image : List Int) (source : Provider) (inputs : List Int) :
    (setUp p image source inputs).Reachable :=
  (((reachable_new p).perform (.loadAt 0 image)).perform (.attach source)).perform (.queue inputs)

theorem pending_setUp (p : Policy) (image : List Int) (source : Provider) (inputs : List Int) :
    (setUp p image source inputs).pending = inputs.map p.clamp :=
  pending_queue _ inputs

theorem output_setUp (p : Policy) (image : List Int) (source : Provider) (inputs : List Int) :
    (setUp p image source inputs).output = #[] :=
  output_queue _ inputs

/-- The machine after `n` steps, whatever they answer. -/
def after : Machine → Nat → Machine
  | m, 0 => m
  | m, n + 1 => m.step.2.after n

/-- What `n` steps answer, in order. -/
def results : Machine → Nat → List (Except StepError Instruction)
  | _, 0 => []
  | m, n + 1 => m.step.1 :: m.step.2.results n

@[simp] theorem after_zero (m : Machine) : m.after 0 = m := rfl

theorem after_succ (m : Machine) (n : Nat) : m.after (n + 1) = m.step.2.after n := rfl

theorem results_succ (m : Machine) (n : Nat) :
    m.results (n + 1) = m.step.1 :: m.step.2.results n := rfl

theorem Reachable.after {m : Machine} (h : m.Reachable) (n : Nat) : (m.after n).Reachable := by
  induction n generalizing m with
  | zero => exact h
  | succ n ih => exact ih h.step

/-- **Runs in lockstep.** What a step keeps of two machines that it also gives the same answer, any
number of steps keeps. -/
theorem lockstep {R : Machine → Machine → Prop}
    (hR : ∀ m n, R m n → m.step.1 = n.step.1 ∧ R m.step.2 n.step.2) {m n : Machine} (h : R m n)
    (k : Nat) : m.results k = n.results k ∧ R (m.after k) (n.after k) := by
  induction k generalizing m n with
  | zero => exact ⟨rfl, h⟩
  | succ k ih =>
    obtain ⟨hanswer, hnext⟩ := hR m n h
    obtain ⟨hresults, hafter⟩ := ih hnext
    refine ⟨?_, hafter⟩
    rw [results_succ, results_succ, hanswer, hresults]

/-! ### The diagnostics, sorted -/

/-- The diagnostics about words from outside that were out of range. -/
def clamped (m : Machine) : List Diagnostic :=
  m.diagnostics.toList.filter Diagnostic.isClamping

/-- The other diagnostics. -/
def conditions (m : Machine) : List Diagnostic :=
  m.diagnostics.toList.filter fun d => !d.isClamping

theorem filter_isClamping_clampings (p : Policy) (ws : List Int) :
    (Diagnostic.clampings p ws).filter Diagnostic.isClamping = Diagnostic.clampings p ws := by
  rw [List.filter_eq_self]
  intro d hd
  obtain ⟨w, -, -, rfl⟩ := Diagnostic.mem_clampings.1 hd
  rfl

theorem clamped_queue (m : Machine) (ws : List Int) :
    (m.queue ws).clamped = m.clamped ++ Diagnostic.clampings m.policy ws := by
  change (m.diagnostics ++ Diagnostic.clampings m.policy ws).toList.filter _ = _
  rw [Array.toList_appendList, List.filter_append, filter_isClamping_clampings]
  rfl

theorem conditions_queue (m : Machine) (ws : List Int) :
    (m.queue ws).conditions = m.conditions :=
  Diagnostic.filter_append_clampings (fun _ _ => rfl) _ _ _

theorem clamped_fault (m : Machine) : m.fault.clamped = m.clamped := by
  change (m.diagnostics.push (.pcOutOfBounds m.pc)).toList.filter _ = _
  rw [Array.toList_push, List.filter_append]
  exact List.append_nil _

theorem conditions_fault (m : Machine) :
    m.fault.conditions = m.conditions ++ [.pcOutOfBounds m.pc] := by
  change (m.diagnostics.push (.pcOutOfBounds m.pc)).toList.filter _ = _
  rw [Array.toList_push, List.filter_append]
  rfl

theorem Follows.clamped {m next : Machine} {i : Instruction} (h : m.Follows i next) :
    next.clamped = m.clamped ++ (m.reported i).filter Diagnostic.isClamping := by
  rw [Machine.clamped, h.diagnostics, List.filter_append]
  rfl

theorem Follows.conditions {m next : Machine} {i : Instruction} (h : m.Follows i next) :
    next.conditions = m.conditions ++ (m.reported i).filter fun d => !d.isClamping := by
  rw [Machine.conditions, h.diagnostics, List.filter_append]
  rfl

/-! ### Machines that agree -/

/-- Two machines agree in everything but the input that waits, the provider and the diagnostics. -/
structure Agree (m n : Machine) : Prop where
  policy : m.policy = n.policy
  acc : m.acc = n.acc
  pc : m.pc = n.pc
  memory : m.memory = n.memory
  state : m.state = n.state
  output : m.output = n.output
  cycles : m.cycles = n.cycles
  last : m.last = n.last

theorem Agree.refl (m : Machine) : m.Agree m :=
  ⟨rfl, rfl, rfl, rfl, rfl, rfl, rfl, rfl⟩

theorem Agree.symm {m n : Machine} (h : m.Agree n) : n.Agree m :=
  ⟨h.policy.symm, h.acc.symm, h.pc.symm, h.memory.symm, h.state.symm, h.output.symm, h.cycles.symm,
    h.last.symm⟩

theorem Agree.trans {m₀ m₁ m₂ : Machine} (h : m₀.Agree m₁) (h' : m₁.Agree m₂) : m₀.Agree m₂ :=
  ⟨h.policy.trans h'.policy, h.acc.trans h'.acc, h.pc.trans h'.pc, h.memory.trans h'.memory,
    h.state.trans h'.state, h.output.trans h'.output, h.cycles.trans h'.cycles,
    h.last.trans h'.last⟩

theorem Agree.queue {m n : Machine} (h : m.Agree n) (ws : List Int) : (m.queue ws).Agree n :=
  ⟨h.policy, h.acc, h.pc, h.memory, h.state, (m.output_queue ws).trans h.output, h.cycles, h.last⟩

theorem Agree.fault {m n : Machine} (h : m.Agree n) : m.fault.Agree n.fault :=
  ⟨h.policy, h.acc, h.pc, h.memory, rfl, h.output, h.cycles, h.last⟩

/-- **Machines that agree still agree after an instruction**, if it takes the same input in both. -/
theorem Agree.follows {m n m' n' : Machine} {i : Instruction} (h : m.Agree n)
    (hm : m.Follows i m') (hn : n.Follows i n') (hinput : i = .inp → m.input? = n.input?) :
    m'.Agree n' where
  policy := by rw [hm.policy, hn.policy, h.policy]
  acc := by
    rw [hm.acc, hn.acc]
    cases i with
    | inp => simp only [accAfter, hinput rfl, h.acc]
    | _ => simp only [accAfter, h.policy, h.acc, h.memory]
  pc := by
    rw [hm.pc, hn.pc]
    cases i <;> simp only [pcAfter, h.policy, h.acc, h.pc]
  memory := by
    refine Memory.ext_get fun a _ => ?_
    rw [hm.cell, hn.cell]
    cases i <;> simp only [cellAfter, h.acc, h.memory]
  state := by rw [hm.state, hn.state]
  output := by
    rw [← Array.toList_inj, hm.output, hn.output, h.output]
    cases i <;> simp only [emitted, h.acc]
  cycles := by rw [hm.cycles, hn.cycles, h.cycles]
  last := by rw [hm.last, hn.last]

/-! ### Steps alike -/

/-- The ways in which two machines can step alike. -/
inductive StepsAlike (m n : Machine) : Prop
  /-- Both refuse. -/
  | refuse {e : StepError} (hm : m.step = (.error e, m)) (hn : n.step = (.error e, n))
  /-- Both fault. -/
  | fault {e : StepError} (hm : m.step = (.error e, m.fault)) (hn : n.step = (.error e, n.fault))
  /-- Both carry out the instruction `i`, and ask the provider for it or not. -/
  | carry {i : Instruction} {m' n' : Machine} (hm : m.step = (.ok i, m'))
      (hn : n.step = (.ok i, n')) (hmf : m.Follows i m') (hnf : n.Follows i n')
      (hupcoming : m.upcoming = i) (hasks : m.asks = m.mustAsk)

/-- A machine that can step asks if the instruction at its counter must ask. -/
theorem asks_eq_mustAsk {m : Machine} (hm : m.state = .running) (hpc : m.pc < 100) :
    m.asks = m.mustAsk := by
  have hfetched : m.fetched? = some (m.memory.get m.pc) := by
    rw [fetched?, if_pos (isRunning_iff.2 hm), Memory.get?_eq_some_get hpc]
  rw [asks, hfetched, mustAsk, upcoming]
  cases m.pending <;> simp

/-- **Machines that agree step alike.** -/
theorem Agree.stepsAlike {m n : Machine} (h : m.Agree n) (hm : m.Consistent) (hn : n.Consistent) :
    m.StepsAlike n := by
  by_cases hrun : m.state = .running
  · have hrun' : n.state = .running := h.state.symm.trans hrun
    by_cases hpc : m.pc < 100
    · obtain ⟨i, m', hi, hs, hf⟩ := step_follows hm.words hrun hpc
      obtain ⟨j, n', hj, hs', hf'⟩ := step_follows hn.words hrun' (h.pc ▸ hpc)
      have hupcoming : m.upcoming = i := Instruction.reads_iff.1 hi
      have hsame : m.upcoming = n.upcoming := by rw [upcoming, upcoming, h.memory, h.pc]
      obtain rfl : i = j := hupcoming.symm.trans (hsame.trans (Instruction.reads_iff.1 hj))
      exact .carry hs hs' hf hf' hupcoming (asks_eq_mustAsk hrun hpc)
    · refine .fault (step_of_le_pc hrun (by omega)) ?_
      rw [step_of_le_pc hrun' (h.pc ▸ by omega), h.pc]
  · refine .refuse (step_of_ne_running hrun) ?_
    rw [step_of_ne_running (h.state ▸ hrun), h.state]

end Machine

end LittleMan
