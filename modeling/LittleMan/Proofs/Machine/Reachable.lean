import LittleMan.Machine.Operation

/-!
# Reachable machines

A machine is reachable if some history of calls leads to it from a fresh machine: loads, input,
providers, resets, samples, steps and runs, in any order and with any arguments. Nothing is said
about the words and providers that are handed in.

All calls come down to five moves, of which a run makes as many as it needs. What the moves keep,
every history keeps; that induction is made here once, for any property (`Kept`).

## Main definitions

* `Machine.Reachable` — some history leads to a machine
* `Machine.Kept` — the moves keep a property

## Main results

* `Machine.Kept.call`, `Machine.Kept.history` — so do calls and histories
* `Machine.Reachable.induction` — a property of fresh machines that the moves keep holds of every
  reachable machine
* `Machine.Reachable.call` — calls lead from reachable machines to reachable machines
-/

namespace LittleMan

namespace Machine

/-- A machine that some history leads to from a fresh machine. -/
def Reachable (m : Machine) : Prop :=
  ∃ (p : Policy) (calls : List Call) (answers : List Answer),
    (new p).history calls = some (answers, m)

/-- The moves that all calls are made of keep a property. -/
structure Kept (P : Machine → Prop) : Prop where
  reset : ∀ m, P m → P m.reset
  loadAt : ∀ m start ws, P m → P (m.loadAt start ws)
  queue : ∀ m ws, P m → P (m.queue ws)
  attach : ∀ m p, P m → P (m.attach p)
  step : ∀ m, P m → P m.step.2

namespace Kept

variable {P : Machine → Prop}

theorem runUntil (hP : Kept P) {limit : Nat} {m : Machine} (h : P m) :
    P (Machine.runUntil limit m).2 := by
  fun_induction Machine.runUntil limit m with
  | case1 m hm i next hs ih =>
    have hnext := hP.step m h
    rw [hs] at hnext
    exact ih hnext
  | case2 m hm e next hs =>
    have hnext := hP.step m h
    rwa [hs] at hnext
  | case3 m hm => exact h

/-- An unlimited run keeps what a step keeps. The induction is on the rounds of the run, which are
finitely many if it comes back. -/
theorem runOn (hP : Kept P) {m : Machine} (h : P m) {r : Option StepError × Machine}
    (hr : Machine.runOn m = some r) : P r.2 := by
  refine Machine.runOn.partial_correctness (fun m r => P m → P r.2) ?_ m r hr h
  intro rounds ih m r hround hm
  split at hround
  · have hnext := hP.step m hm
    split at hround
    · next hs =>
      rw [hs] at hnext
      exact ih _ _ hround hnext
    · next hs =>
      rw [hs] at hnext
      cases hround
      exact hnext
  · cases hround
    exact hm

theorem preset (hP : Kept P) (data : List (Nat × Int)) {m : Machine} (h : P m) :
    P (Sample.preset data m) := by
  induction data generalizing m with
  | nil => exact h
  | cons cell rest ih =>
    rw [Sample.preset_cons]
    exact ih (hP.loadAt m cell.1 [cell.2] h)

theorem perform (hP : Kept P) (o : Operation) {m : Machine} (h : P m) : P (o.perform m).2 := by
  cases o with
  | loadAt start ws => exact hP.loadAt m start ws h
  | queue ws => exact hP.queue m ws h
  | attach p => exact hP.attach m p h
  | reset => exact hP.reset m h
  | prepare s inputs =>
    have hloaded := hP.loadAt _ 0 s.cells (hP.reset m h)
    exact hP.queue _ inputs (hP.preset s.data hloaded)
  | step => exact hP.step m h
  | runLimited limit =>
    change P (m.runLimited limit).2
    rw [runLimited, tally_snd]
    exact hP.runUntil h

theorem call (hP : Kept P) {c : Call} {m next : Machine} {answer : Answer} (h : P m)
    (hc : m.call c = some (answer, next)) : P next := by
  cases c with
  | operation o =>
    have hnext := hP.perform o h
    rwa [call_operation_eq_some.1 hc] at hnext
  | run =>
    obtain ⟨result, hrun, -⟩ := call_run_eq_some.1 hc
    obtain ⟨e, hr, -⟩ := run_eq_some.1 hrun
    exact hP.runOn h hr

theorem history (hP : Kept P) {calls : List Call} {m last : Machine} {answers : List Answer}
    (h : P m) (hm : m.history calls = some (answers, last)) : P last := by
  induction calls generalizing m answers with
  | nil =>
    cases hm
    exact h
  | cons c rest ih =>
    obtain ⟨answer, next, later, hc, hrest, rfl⟩ := history_cons_eq_some.1 hm
    exact ih (hP.call h hc) hrest

end Kept

/-- **Induction over all histories.** A property of fresh machines that the moves keep holds of
every reachable machine. -/
theorem Reachable.induction {P : Machine → Prop} (hP : Kept P) (hnew : ∀ p, P (new p)) {m : Machine}
    (h : m.Reachable) : P m := by
  obtain ⟨p, _, _, hm⟩ := h
  exact hP.history (hnew p) hm

theorem reachable_new (p : Policy) : (new p).Reachable :=
  ⟨p, [], [], rfl⟩

theorem Reachable.history {m last : Machine} (h : m.Reachable) {calls : List Call}
    {answers : List Answer} (hm : m.history calls = some (answers, last)) : last.Reachable := by
  obtain ⟨p, earlier, first, hfirst⟩ := h
  exact ⟨p, earlier ++ calls, first ++ answers,
    history_append_eq_some.2 ⟨first, m, answers, hfirst, hm, rfl⟩⟩

theorem Reachable.call {m next : Machine} (h : m.Reachable) {c : Call} {answer : Answer}
    (hc : m.call c = some (answer, next)) : next.Reachable := by
  have hm : m.history [c] = some ([answer], next) :=
    history_cons_eq_some.2 ⟨answer, next, [], hc, rfl, rfl⟩
  exact h.history hm

theorem Reachable.perform {m : Machine} (h : m.Reachable) (o : Operation) :
    (o.perform m).2.Reachable :=
  h.call (c := .operation o) rfl

theorem Reachable.step {m : Machine} (h : m.Reachable) : m.step.2.Reachable :=
  h.perform .step

end Machine

end LittleMan
