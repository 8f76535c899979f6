import LittleMan.Machine.Snapshot
import LittleMan.Proofs.Machine.Reachable

/-!
# A snapshot is a complete description

A snapshot leaves out three things: the mailboxes that hold zero, the provider and the last
instruction. The mailboxes can be recovered. The provider matters, since the next input may come
from it. The last instruction does not matter, since nothing reads it: a step overwrites it or
leaves it alone. So two machines that look alike and ask alike cannot be told apart by anything
that is done to them.

The proof forgets the last instruction. Whether it is forgotten before a call or after it makes no
difference, and a machine without it is known by its snapshot and its provider.

## Main definitions

* `Machine.forget` — the machine without its last instruction
* `Machine.observe` — what can be seen of a list of calls

## Main results

* `Machine.forget_eq_iff` — what a snapshot and the provider leave open
* `Machine.call_forget` — forgetting before a call is forgetting after it
* `Machine.observe_eq_of_snapshot_eq` — machines that look alike behave alike
-/

namespace LittleMan

namespace Machine

/-- The machine without its last instruction. -/
def forget (m : Machine) : Machine :=
  { m with last := none }

/-- What can be seen of a list of calls: the answer to each of them, and the view after it. A call
that does not come back is the last one, and nothing is seen of it. -/
def observe : Machine → List Call → List (Option (Answer × Snapshot))
  | _, [] => []
  | m, c :: rest =>
    match m.call c with
    | none => [none]
    | some (answer, next) => some (answer, next.snapshot) :: next.observe rest

/-! ### What a snapshot leaves out -/

@[simp] theorem snapshot_forget (m : Machine) : m.forget.snapshot = m.snapshot := rfl

@[simp] theorem memory_forget (m : Machine) : m.forget.memory = m.memory := rfl

@[simp] theorem forget_forget (m : Machine) : m.forget.forget = m.forget := rfl

/-- **A snapshot and the provider leave only the last instruction open.** -/
theorem forget_eq_iff {m n : Machine} :
    m.forget = n.forget ↔ m.snapshot = n.snapshot ∧ m.provider = n.provider := by
  constructor
  · intro h
    have hview := congrArg snapshot h
    have hprovider := congrArg provider h
    exact ⟨hview, hprovider⟩
  · rintro ⟨hview, hprovider⟩
    have hmemory : m.memory = n.memory :=
      Memory.eq_of_nonZero_eq (congrArg Snapshot.memory hview)
    obtain ⟨_, ⟨_, _⟩, _, _, ⟨_, _⟩, _, _, _, _⟩ := m
    obtain ⟨_, ⟨_, _⟩, _, _, ⟨_, _⟩, _, _, _, _⟩ := n
    simp_all [snapshot, forget, acc, pc, pending, output]

/-! ### Nothing reads the last instruction -/

theorem takeInput_forget (m : Machine) (pc : Nat) :
    m.forget.takeInput pc = (m.takeInput pc).forget := by
  obtain ⟨_, _, _, _, ⟨input, _⟩, provider, _, _, _⟩ := m
  cases input with
  | cons w rest => rfl
  | nil =>
    rcases hask : provider.ask with ⟨_ | w, next⟩ <;>
      simp [takeInput, forget, withAcc, report, hask]

theorem execute_forget (m : Machine) (pc : Nat) (i : Instruction) :
    m.forget.execute pc i = (m.execute pc i).forget := by
  cases i with
  | inp => exact takeInput_forget m pc
  | _ => rfl

/-- A step that carries out an instruction overwrites the last one. -/
theorem step_forget_of_ok {m next : Machine} {i : Instruction} (h : m.step = (.ok i, next)) :
    m.forget.step = (.ok i, next) := by
  by_cases hm : m.state = .running
  · by_cases hpc : m.pc < 100
    · rw [step_of_pc_lt hm hpc] at h
      rw [step_of_pc_lt (m := m.forget) hm hpc, ← h]
      change (_, (m.advance.forget.execute m.pc _).account _) = _
      rw [execute_forget]
      rfl
    · rw [step_of_le_pc hm (by omega)] at h
      cases h
  · rw [step_of_ne_running hm] at h
    cases h

/-- A step that errs leaves it alone. -/
theorem step_forget_of_error {m next : Machine} {e : StepError} (h : m.step = (.error e, next)) :
    m.forget.step = (.error e, next.forget) := by
  by_cases hm : m.state = .running
  · by_cases hpc : m.pc < 100
    · rw [step_of_pc_lt hm hpc] at h
      cases h
    · rw [step_of_le_pc hm (by omega)] at h
      cases h
      exact step_of_le_pc (m := m.forget) hm (Nat.not_lt.1 hpc)
  · rw [step_of_ne_running hm] at h
    cases h
    exact step_of_ne_running (m := m.forget) hm

/-! ### Runs

After the first instruction of a run nothing is left of what was forgotten, so that the rest of the
run is the very same. -/

theorem runUntil_forget (limit : Nat) (m : Machine) :
    (runUntil limit m.forget).map id forget = (runUntil limit m).map id forget := by
  by_cases hm : m.isRunning = true ∧ m.cycles < limit
  · obtain ⟨hrun, hc⟩ := hm
    rcases hs : m.step with ⟨e | i, next⟩
    · rw [runUntil_of_error hrun hc hs, runUntil_of_error (m := m.forget) hrun hc
        (step_forget_of_error hs)]
      rfl
    · rw [runUntil_of_ok hrun hc hs, runUntil_of_ok (m := m.forget) hrun hc
        (step_forget_of_ok hs)]
  · have hstop : m.isRunning = false ∨ limit ≤ m.cycles := by
      simpa using Decidable.not_and_iff_or_not.1 hm
    rw [runUntil_of_stop hstop, runUntil_of_stop (m := m.forget) hstop]
    rfl

theorem runOn_forget (m : Machine) :
    (runOn m.forget).map (Prod.map id forget) = (runOn m).map (Prod.map id forget) := by
  by_cases hrun : m.isRunning = true
  · rcases hs : m.step with ⟨e | i, next⟩
    · rw [runOn_of_error hrun hs, runOn_of_error (m := m.forget) hrun (step_forget_of_error hs)]
      rfl
    · rw [runOn_of_ok hrun hs, runOn_of_ok (m := m.forget) hrun (step_forget_of_ok hs)]
  · have hstop : m.isRunning = false := by simpa using hrun
    rw [runOn_of_stop hstop, runOn_of_stop (m := m.forget) hstop]
    rfl

/-- The answer of a run does not depend on what was forgotten before it or after it. -/
theorem tally_forget (m : Machine) (r : Option StepError × Machine) :
    m.forget.tally (r.map id forget) = (m.tally r).map id forget := by
  obtain ⟨_ | e, after⟩ := r <;> rfl

theorem runLimited_forget (m : Machine) (limit : Nat) :
    (m.forget.runLimited limit).map id forget = (m.runLimited limit).map id forget := by
  let top := min (m.cycles + limit) cyclesEnd
  calc (m.forget.runLimited limit).map id forget
      = m.forget.tally ((runUntil top m.forget).map id forget) := (tally_forget m.forget _).symm
    _ = m.forget.tally ((runUntil top m).map id forget) := by rw [runUntil_forget]
    _ = (m.runLimited limit).map id forget := tally_forget m _

theorem run_forget (m : Machine) :
    m.forget.run.map (Prod.map id forget) = m.run.map (Prod.map id forget) := by
  calc m.forget.run.map (Prod.map id forget)
      = ((runOn m.forget).map (Prod.map id forget)).map m.forget.tally := by
        simp only [run, Option.map_map, Function.comp_def, ← tally_forget m.forget, forget_forget]
    _ = ((runOn m).map (Prod.map id forget)).map m.forget.tally := by rw [runOn_forget]
    _ = m.run.map (Prod.map id forget) := by
        simp only [run, Option.map_map, Function.comp_def, tally_forget]

/-! ### Calls -/

theorem perform_forget (o : Operation) (m : Machine) :
    (o.perform m.forget).map id forget = (o.perform m).map id forget := by
  cases o with
  | step =>
    rcases hs : m.step with ⟨e | i, next⟩
    · simp [Operation.perform, step_forget_of_error hs, hs]
    · simp [Operation.perform, step_forget_of_ok hs, hs]
  | runLimited limit =>
    exact congrArg (Prod.map Answer.ran id) (runLimited_forget m limit)
  | _ => rfl

/-- **Forgetting before a call is forgetting after it.** -/
theorem call_forget (m : Machine) (c : Call) :
    (m.forget.call c).map (Prod.map id forget) = (m.call c).map (Prod.map id forget) := by
  cases c with
  | operation o => exact congrArg some (perform_forget o m)
  | run =>
    have hrun := congrArg (Option.map (Prod.map Answer.ran id)) (run_forget m)
    rw [Option.map_map, Option.map_map] at hrun
    simp only [call, Option.map_map]
    exact hrun

/-- **Nothing that is done to a machine brings the last instruction to light.** -/
theorem observe_forget (m : Machine) (calls : List Call) :
    m.forget.observe calls = m.observe calls := by
  induction calls generalizing m with
  | nil => rfl
  | cons c rest ih =>
    have hcall := call_forget m c
    rw [observe, observe]
    cases hm : m.call c with
    | none =>
      rw [hm, Option.map_none, Option.map_eq_none_iff] at hcall
      rw [hcall]
    | some made =>
      obtain ⟨answer, next⟩ := made
      rw [hm, Option.map_some, Option.map_eq_some_iff] at hcall
      obtain ⟨⟨answer', next'⟩, hm', hmade⟩ := hcall
      obtain ⟨rfl, hforget⟩ := Prod.mk.inj hmade
      have hnext : next'.forget = next.forget := hforget
      have hview : next'.snapshot = next.snapshot := (forget_eq_iff.1 hnext).1
      have hrest : next'.observe rest = next.observe rest := by
        rw [← ih next', ← ih next, hnext]
      rw [hm']
      simp only [hview, hrest, id_eq]

/-- **A snapshot is a complete description of a machine.** Two machines that give the same snapshot,
and whose providers are in the same state, hold the same words in all their mailboxes. Whatever is
done to them, with any arguments, every call answers the same on both, or comes back from neither;
and after every call they give the same snapshot again. -/
theorem observe_eq_of_snapshot_eq {m n : Machine} (hview : m.snapshot = n.snapshot)
    (hprovider : m.provider = n.provider) :
    m.memory = n.memory ∧ ∀ calls, m.observe calls = n.observe calls := by
  have hforget : m.forget = n.forget := forget_eq_iff.2 ⟨hview, hprovider⟩
  refine ⟨?_, fun calls => ?_⟩
  · rw [← memory_forget m, ← memory_forget n, hforget]
  · rw [← observe_forget m, ← observe_forget n, hforget]

/-- Two machines with different pasts: one branched to mailbox 1 in any case and the other because
its accumulator was zero, before both were given the same program. Only their last instructions tell
them apart. -/
theorem observe_eq_of_two_branches :
    let always := (new .decimal).loadAt 0 [601]
    let onZero := (new .decimal).loadAt 0 [701]
    let m := always.step.2.loadAt 0 [901, 902]
    let n := onZero.step.2.loadAt 0 [901, 902]
    m.last = some (.bra 1) ∧ n.last = some (.brz 1) ∧ m.snapshot = n.snapshot ∧
      m.memory = n.memory ∧ ∀ calls, m.observe calls = n.observe calls := by
  intro always onZero m n
  have hget : always.memory.get always.pc = 601 := by decide +kernel
  have hget' : onZero.memory.get onZero.pc = 701 := by decide +kernel
  have hm : always.step.2 =
      { always with registers := ⟨0, 1⟩, cycles := 1, last := some (.bra 1) } := by
    rw [step_of_pc_lt rfl (by decide), hget]
    rfl
  have hn : onZero.step.2 =
      { onZero with registers := ⟨0, 1⟩, cycles := 1, last := some (.brz 1) } := by
    rw [step_of_pc_lt rfl (by decide), hget']
    rfl
  have hmemory : always.memory.load 0 [901, 902] = onZero.memory.load 0 [901, 902] := by
    refine Memory.ext_get fun a ha => ?_
    rcases a with _ | _ | a <;> simp [Memory.get_load, always, onZero, loadAt, new]
  have hforget : m.forget = n.forget := by
    have hm' : m.forget = { new .decimal with
        registers := ⟨0, 1⟩, memory := always.memory.load 0 [901, 902], cycles := 1 } := by
      simp only [m, hm]
      rfl
    have hn' : n.forget = { new .decimal with
        registers := ⟨0, 1⟩, memory := onZero.memory.load 0 [901, 902], cycles := 1 } := by
      simp only [n, hn]
      rfl
    rw [hm', hn', hmemory]
  obtain ⟨hview, hprovider⟩ := forget_eq_iff.1 hforget
  refine ⟨?_, ?_, hview, observe_eq_of_snapshot_eq hview hprovider⟩
  · simp only [m, hm]
    rfl
  · simp only [n, hn]
    rfl

end Machine

end LittleMan
