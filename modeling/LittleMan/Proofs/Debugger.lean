import LittleMan.Debugger
import LittleMan.Proofs.Machine.Restart

/-!
# Debuggers go back to the start

A debugger goes back to the memory and the input queue that it took from its machine at the start.
They are loaded and queued like any other words, and come back unchanged and without a report since
the words of a reachable machine are in range, whatever machine it was: it may have run before, and
it may have stopped.

In between, the machine can be worked on through the debugger and past it.

## Main definitions

* `Debugger.Reached` — the debuggers that can come of one that was started
* `Debugger.Remembers` — what a debugger keeps of the machine that it was started on

## Main results

* `Debugger.exists_step`, `Debugger.exists_tick` — what a step and a tick can do
* `Debugger.Reached.machine_reachable` — what is debugged is a reachable machine
* `Debugger.Reached.remembers` — whatever is done, the debugger remembers its start
* `Debugger.Reached.reset_restores` — a reset restores it
-/

namespace LittleMan

namespace Debugger

/-- A debugger that can come of one that was started on `m`: by what a debugger does, and by calls
to the machine that it debugs. -/
inductive Reached (m : Machine) : Debugger → Prop
  | start : Reached m (Debugger.start m)
  | step {d : Debugger} : Reached m d → Reached m d.step
  | run {d : Debugger} : Reached m d → Reached m d.run
  | tick {d : Debugger} : Reached m d → Reached m d.tick
  | reset {d : Debugger} : Reached m d → Reached m d.reset
  | scrollBy {d : Debugger} (delta : Int) : Reached m d → Reached m (d.scrollBy delta)
  | call {d : Debugger} {c : Call} {answer : Answer} {next : Machine} :
      Reached m d → d.machine.call c = some (answer, next) → Reached m { d with machine := next }

/-! ### Steps and ticks -/

/-- A step steps the machine, and changes nothing but what was done last and whether to go on. -/
theorem exists_step (d : Debugger) :
    ∃ running status,
      d.step = { d with machine := d.machine.step.2, running := running, status := status } := by
  by_cases hm : d.machine.isRunning = true
  · rcases hs : d.machine.step with ⟨e | i, next⟩
    · exact ⟨false, .failed e, by simp [step, hm, hs]⟩
    · cases hnew : next.diagnostics[d.machine.diagnostics.size]? with
      | some condition =>
        exact ⟨d.running, .reported d.machine.pc condition, by simp [step, hm, hs, hnew]⟩
      | none => exact ⟨d.running, .stepped d.machine.pc i, by simp [step, hm, hs, hnew]⟩
  · have hstate : d.machine.state ≠ .running := fun h => hm (Machine.isRunning_iff.2 h)
    exact ⟨false, .stopped d.machine.state, by simp [step, hm, Machine.step_of_ne_running hstate]⟩

/-- So does a tick, if it does anything. -/
theorem exists_tick (d : Debugger) :
    d.tick = d ∨
      ∃ running status,
        d.tick = { d with machine := d.machine.step.2, running := running, status := status } := by
  by_cases hd : d.running = true
  · right
    by_cases hm : d.machine.isRunning = true
    · rw [tick, if_pos hd, if_pos hm]
      exact d.exists_step
    · have hstate : d.machine.state ≠ .running := fun h => hm (Machine.isRunning_iff.2 h)
      refine ⟨false, .finished d.machine.state d.machine.cycles, ?_⟩
      simp [tick, hd, hm, Machine.step_of_ne_running hstate]
  · exact .inl (by simp [tick, hd])

/-! ### What is debugged -/

/-- Whatever is done, the machine that is debugged is a reachable one. -/
theorem Reached.machine_reachable {m : Machine} (hm : m.Reachable) {d : Debugger}
    (h : Reached m d) : d.machine.Reachable := by
  induction h with
  | start => exact hm
  | @step d _ ih =>
    obtain ⟨running, status, hs⟩ := d.exists_step
    rw [hs]
    exact ih.step
  | @tick d _ ih =>
    rcases d.exists_tick with ht | ⟨running, status, ht⟩
    · rwa [ht]
    · rw [ht]
      exact ih.step
  | @reset d _ ih =>
    exact ((ih.perform .reset).perform (.loadAt 0 d.image)).perform (.queue d.inputs)
  | call _ hcall ih => exact ih.call hcall
  | run _ ih => exact ih
  | scrollBy delta _ ih => exact ih

/-! ### What is remembered -/

/-- What a debugger keeps of the machine that it was started on. -/
structure Remembers (m : Machine) (d : Debugger) : Prop where
  image : d.image = m.memory.toList
  inputs : d.inputs = m.pending
  policy : d.machine.policy = m.policy

/-- Anything may be done to the machine that leaves its policy alone. -/
theorem Remembers.onMachine {m n : Machine} {d : Debugger} (h : d.Remembers m)
    (hpolicy : n.policy = d.machine.policy) (running : Bool) (status : Status) :
    { d with machine := n, running := running, status := status }.Remembers m where
  image := h.image
  inputs := h.inputs
  policy := hpolicy.trans h.policy

/-- **A debugger remembers the machine that it was started on.** -/
theorem Reached.remembers {m : Machine} {d : Debugger} (h : Reached m d) : d.Remembers m := by
  induction h with
  | start => exact ⟨rfl, rfl, rfl⟩
  | @step d _ ih =>
    obtain ⟨running, status, hs⟩ := d.exists_step
    rw [hs]
    exact ih.onMachine (Machine.policy_step _) running status
  | @tick d _ ih =>
    rcases d.exists_tick with ht | ⟨running, status, ht⟩
    · rwa [ht]
    · rw [ht]
      exact ih.onMachine (Machine.policy_step _) running status
  | @reset d _ ih =>
    exact ih.onMachine (n := (d.machine.reset.load d.image).queue d.inputs) rfl false .reset
  | @call d c answer next _ hcall ih =>
    exact ih.onMachine ((Machine.kept_policy d.machine.policy).call rfl hcall) d.running d.status
  | run _ ih => exact ⟨ih.image, ih.inputs, ih.policy⟩
  | scrollBy delta _ ih => exact ⟨ih.image, ih.inputs, ih.policy⟩

/-! ### Resets -/

/-- A reset leads to a fresh machine with the memory and the queue that the debugger was started
with. -/
theorem Remembers.reset_eq {m : Machine} {d : Debugger} (hm : m.Consistent) (h : d.Remembers m) :
    d.reset =
      { d with
        machine :=
          { Machine.new m.policy with
            memory := m.memory
            channels := { input := m.pending }
            provider := d.machine.provider }
        running := false
        status := .reset } := by
  rw [reset, h.image, h.inputs, hm.restart h.policy]

/-- **A reset goes back to the start.** Start a debugger on any reachable machine, and do whatever
a debugger does, and whatever can be done to its machine. A reset brings back the memory and the
queue of the start, with nothing to report, and what else there was to the machine is forgotten. Its
policy, its provider and the view of memory stay. So all resets of a debugger lead to one machine,
up to the provider. -/
theorem Reached.reset_restores {m : Machine} (hm : m.Reachable) {d : Debugger} (hd : Reached m d) :
    d.reset.machine.memory = m.memory ∧
      d.reset.machine.pending = m.pending ∧
      d.reset.machine.acc = 0 ∧
      d.reset.machine.pc = 0 ∧
      d.reset.machine.cycles = 0 ∧
      d.reset.machine.state = .running ∧
      d.reset.machine.output = #[] ∧
      d.reset.machine.diagnostics = #[] ∧
      d.reset.machine.last = none ∧
      d.reset.running = false ∧
      d.reset.machine.policy = d.machine.policy ∧
      d.reset.machine.provider = d.machine.provider ∧
      d.reset.scroll = d.scroll ∧
      ∀ d', Reached m d' → d'.reset.machine = d.reset.machine.attach d'.machine.provider := by
  have hreset := hd.remembers.reset_eq hm.consistent
  rw [hreset]
  refine ⟨rfl, rfl, rfl, rfl, rfl, rfl, rfl, rfl, rfl, rfl, hd.remembers.policy.symm, rfl, rfl, ?_⟩
  intro d' hd'
  rw [hd'.remembers.reset_eq hm.consistent]
  rfl

/-- The debugger is started on a machine that has taken the first of two inputs. It stores that in
mailbox 5, scrolls, and more input comes in; the reset undoes the store and drops the input. -/
theorem Reached.reset_restores_of_store :
    let m := (((Machine.new .bounded32).load [901, 305, 902]).queue [7, 8]).step.2
    let d := ((Debugger.start m).step.scrollBy 7).onMachine fun n => n.queue [9]
    m.Reachable ∧ Reached m d ∧
      (m.acc = 7 ∧ m.pc = 1 ∧ m.pending = [8] ∧ m.memory.get 5 = 0) ∧
      (d.machine.memory.get 5 = 7 ∧ d.machine.pending = [8, 9]) ∧
      d.reset.machine.memory.get 5 = 0 ∧ d.reset.machine.pending = [8] ∧
      d.reset.machine.acc = 0 ∧ d.reset.machine.pc = 0 ∧ d.reset.machine.diagnostics = #[] ∧
      d.reset.scroll = 7 := by
  intro m d
  have hm : m.Reachable :=
    (((Machine.reachable_new .bounded32).perform (.loadAt 0 [901, 305, 902])).perform
      (.queue [7, 8])).step
  have hd : Reached m d := .call (c := .operation (.queue [9])) (.scrollBy 7 (.step .start)) rfl
  have hstart : m.acc = 7 ∧ m.pc = 1 ∧ m.pending = [8] ∧ m.memory.get 5 = 0 := by decide +kernel
  have hnow : d.machine.memory.get 5 = 7 ∧ d.machine.pending = [8, 9] := by decide +kernel
  have hscroll : d.scroll = 7 := by decide +kernel
  obtain ⟨hmemory, hpending, hacc, hpc, -, -, -, hdiagnostics, -, -, -, -, hview, -⟩ :=
    Reached.reset_restores hm hd
  refine ⟨hm, hd, hstart, hnow, ?_, hpending.trans hstart.2.2.1, hacc, hpc, hdiagnostics,
    hview.trans hscroll⟩
  rw [hmemory]
  exact hstart.2.2.2

end Debugger

end LittleMan
