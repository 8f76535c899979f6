import LittleMan.Proofs.Machine.Consistency

/-!
# The written semantics of a step

The rules of the computer as they are written down, apart from how the machine goes about them. A
step of any reachable machine is what the rules say and nothing else: the rules allow one answer and
one machine afterwards, and the step gives those.

That a step goes by exact integers although the machine has an adder of 64 bits rests on the range
of its words, which is why the machine has to be reachable.

## Main definitions

* `Machine.Obeys` — the rules of a step

## Main results

* `Machine.Reachable.step_eq_iff_obeys` — a step does what the rules say
-/

namespace LittleMan

namespace Machine

/-- The rules of a step. `m.Obeys r next` says that a step of `m` ought to answer `r` and to leave
`next`. -/
inductive Obeys (m : Machine) : Except StepError Instruction → Machine → Prop
  /-- A machine that stopped refuses, and nothing changes. -/
  | refuses (hm : m.state ≠ .running) : Obeys m (.error (.notRunning m.state)) m
  /-- A running machine whose counter left memory faults and reports it; nothing else changes. -/
  | faults (hm : m.state = .running) (hpc : 100 ≤ m.pc) :
      Obeys m (.error (.pcOutOfBounds m.pc))
        { m with
          state := .faulted
          diagnostics := m.diagnostics.push (.pcOutOfBounds m.pc) }
  /-- Any other running machine carries out the instruction at its counter. -/
  | carriesOut (hm : m.state = .running) (hpc : m.pc < 100) {i : Instruction} {next : Machine}
      (hi : Instruction.Reads (m.memory.get m.pc) i) (hn : m.Follows i next) : Obeys m (.ok i) next

/-- What a step does, the rules allow. -/
theorem obeys_step {m : Machine} (hw : m.WordsKept) : m.Obeys m.step.1 m.step.2 := by
  by_cases hm : m.state = .running
  · by_cases hpc : m.pc < 100
    · obtain ⟨i, next, hi, hs, hn⟩ := step_follows hw hm hpc
      rw [hs]
      exact .carriesOut hm hpc hi hn
    · rw [step_of_le_pc hm (by omega)]
      exact .faults hm (by omega)
  · rw [step_of_ne_running hm]
    exact .refuses hm

/-- The rules allow nothing besides what a step does. -/
theorem Obeys.step_eq {m next : Machine} {r : Except StepError Instruction} (h : m.Obeys r next)
    (hw : m.WordsKept) : m.step = (r, next) := by
  cases h with
  | refuses hm => exact step_of_ne_running hm
  | faults hm hpc => exact step_of_le_pc hm hpc
  | carriesOut hm hpc hi hn =>
    obtain ⟨j, after, hj, hs, ha⟩ := step_follows hw hm hpc
    obtain rfl := (Instruction.reads_iff.1 hj).symm.trans (Instruction.reads_iff.1 hi)
    rw [hs, ha.eq hn]

/-- **Refinement.** A step of a reachable machine does exactly what the rules say. A branch on
positive is among them: it is taken with an accumulator from 0 to 499 under the decimal policy, and
with one that is not negative under the other two. -/
theorem Reachable.step_eq_iff_obeys {m next : Machine} {r : Except StepError Instruction}
    (h : m.Reachable) : m.step = (r, next) ↔ m.Obeys r next := by
  have hw := h.consistent.words
  refine ⟨fun hs => ?_, fun ho => ho.step_eq hw⟩
  have ho := obeys_step hw
  rwa [hs] at ho

/-- A machine that is asked for input and gets a word that is too large. -/
theorem Reachable.obeys_of_large_answer :
    let m := ((new .bounded32).attach (.oracle (fun n => some (0x100000000 + n)) 0)).loadAt 0 [901]
    m.Obeys (.ok .inp) m.step.2 ∧ m.step.2.acc = 0x7FFFFFFF := by
  intro m
  have hm : m.Reachable :=
    ((reachable_new .bounded32).perform (.attach _)).perform (.loadAt 0 [901])
  have hget : m.memory.get m.pc = 901 := by decide +kernel
  have hs : m.step = (.ok .inp, m.step.2) := by
    rw [step_of_pc_lt rfl (by decide), hget]
    rfl
  exact ⟨(Reachable.step_eq_iff_obeys hm).1 hs, by decide +kernel⟩

/-- A branch on positive is taken with 50 already: 50 is not where the decimal machine begins to
count negative. -/
theorem not_forall_brp_iff_lt_fifty :
    ¬∀ m next : Machine, m.Reachable → ∀ a, m.step = (.ok (.brp a), next) →
      (next.pc = a ↔ 0 ≤ m.acc ∧ m.acc < 50) := by
  intro h
  let loaded := ((new .decimal).loadAt 0 [510, 820]).loadAt 10 [50]
  have hloaded : loaded.Reachable :=
    ((reachable_new .decimal).perform (.loadAt 0 [510, 820])).perform (.loadAt 10 [50])
  have hget : loaded.step.2.memory.get loaded.step.2.pc = 820 := by decide +kernel
  have hs : loaded.step.2.step = (.ok (.brp 20), loaded.step.2.step.2) := by
    rw [step_of_pc_lt (by decide +kernel) (by decide +kernel), hget]
    rfl
  have hpc : loaded.step.2.step.2.pc = 20 := by decide +kernel
  have hacc : loaded.step.2.acc = 50 := by decide +kernel
  have := ((h _ _ hloaded.step 20 hs).1 hpc).2
  omega

end Machine

end LittleMan
