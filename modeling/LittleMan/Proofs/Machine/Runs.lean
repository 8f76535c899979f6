import Mathlib
import LittleMan.Proofs.Machine.Consistency

/-!
# Runs as iterated steps

A machine has a lifetime: the number of steps it can take before it stops, which may be infinite. A
run is nothing but that many steps, or as many of them as its limit allows; and a step more if the
machine is still running then, which is the step that faults.

The boundaries are worth spelling out. A machine that halts with its last allowed instruction has
halted. A machine that would fault with the step after it has not faulted: a limited run does not
try. A machine that stopped before is left alone.

## Main definitions

* `Machine.steps?` — the machine after so many steps
* `Machine.lifetime` — how many steps a machine can take
* `Machine.Stuck`, `Machine.closing` — a machine that can take none, and what a run makes of it

## Main results

* `Machine.natCast_le_lifetime_iff`, `Machine.lifetime_eq_natCast_iff` — lifetimes by steps
* `Machine.runUntil_of_steps?`, `Machine.runOn_eq_some_iff` — runs by steps
* `Machine.runLimited_runLimited` — a limited run can be split
* `Machine.Reachable.run_eq_iterated_step` — all boundaries of both kinds of run
-/

namespace LittleMan

namespace Machine

/-! ### Steps in a row -/

/-- The machine after `n` steps, if each of them carries out an instruction. -/
def steps? : Machine → Nat → Option Machine
  | m, 0 => some m
  | m, n + 1 =>
    match m.step with
    | (.ok _, next) => next.steps? n
    | (.error _, _) => none

@[simp] theorem steps?_zero (m : Machine) : m.steps? 0 = some m := rfl

theorem steps?_succ_of_ok {m next : Machine} {i : Instruction} (h : m.step = (.ok i, next))
    (n : Nat) : m.steps? (n + 1) = next.steps? n := by
  rw [steps?, h]

theorem steps?_succ_of_error {m next : Machine} {e : StepError} (h : m.step = (.error e, next))
    (n : Nat) : m.steps? (n + 1) = none := by
  rw [steps?, h]

theorem steps?_succ_eq_some {m after : Machine} {n : Nat} :
    m.steps? (n + 1) = some after ↔
      ∃ i next, m.step = (.ok i, next) ∧ next.steps? n = some after := by
  rcases h : m.step with ⟨e | i, next⟩
  · rw [steps?_succ_of_error h]
    constructor
    · intro hn
      cases hn
    · rintro ⟨_, _, hs, _⟩
      cases hs
  · rw [steps?_succ_of_ok h]
    constructor
    · exact fun hn => ⟨i, next, rfl, hn⟩
    · rintro ⟨_, _, hs, hn⟩
      cases hs
      exact hn

/-- Steps are taken one after the other. -/
theorem steps?_add (m : Machine) (a b : Nat) :
    m.steps? (a + b) = (m.steps? a).bind fun middle => middle.steps? b := by
  induction a generalizing m with
  | zero => rw [Nat.zero_add, steps?_zero, Option.bind_some]
  | succ a ih =>
    rw [Nat.succ_add]
    rcases h : m.step with ⟨e | i, next⟩
    · rw [steps?_succ_of_error h, steps?_succ_of_error h, Option.bind_none]
    · rw [steps?_succ_of_ok h, steps?_succ_of_ok h, ih]

/-- A running machine whose counter is in memory can take a step. -/
theorem steps?_of_pc_lt {m : Machine} (hm : m.state = .running) (hpc : m.pc < 100) (n : Nat) :
    m.steps? (n + 1) = m.step.2.steps? n := by
  rw [steps?, step_of_pc_lt hm hpc]

/-- A machine that can take `n` steps can take fewer. -/
theorem exists_steps?_of_le {m after : Machine} {k n : Nat} (h : m.steps? n = some after)
    (hk : k ≤ n) : ∃ middle, m.steps? k = some middle := by
  obtain ⟨d, rfl⟩ := Nat.exists_eq_add_of_le hk
  rw [steps?_add] at h
  obtain ⟨middle, hmiddle, -⟩ := Option.bind_eq_some_iff.1 h
  exact ⟨middle, hmiddle⟩

theorem cycles_steps? {m after : Machine} {n : Nat} (h : m.steps? n = some after) :
    after.cycles = m.cycles + n := by
  induction n generalizing m with
  | zero =>
    cases h
    rfl
  | succ n ih =>
    obtain ⟨i, next, hs, hn⟩ := steps?_succ_eq_some.1 h
    have := cycles_step hs
    have := ih hn
    omega

theorem Reachable.steps? {m after : Machine} {n : Nat} (hm : m.Reachable)
    (h : m.steps? n = some after) : after.Reachable := by
  induction n generalizing m with
  | zero =>
    cases h
    exact hm
  | succ n ih =>
    obtain ⟨i, next, hs, hn⟩ := steps?_succ_eq_some.1 h
    have hnext := hm.step
    rw [hs] at hnext
    exact ih hnext hn

/-! ### Machines that can take no step -/

/-- A machine that can take no step: it stopped, or its counter left memory. -/
def Stuck (m : Machine) : Prop :=
  m.isRunning = true → 100 ≤ m.pc

/-- What a run makes of a machine that can take no step. If it is running it faults. -/
def closing (m : Machine) : Option StepError × Machine :=
  if m.isRunning then (some (.pcOutOfBounds m.pc), m.fault) else (none, m)

theorem isRunning_iff {m : Machine} : m.isRunning = true ↔ m.state = .running :=
  decide_eq_true_iff

theorem isRunning_of_step {m next : Machine} {i : Instruction} (h : m.step = (.ok i, next)) :
    m.isRunning = true := by
  refine isRunning_iff.2 (Decidable.byContradiction fun hm => ?_)
  rw [step_of_ne_running hm] at h
  cases h

theorem Stuck.not_step {m next : Machine} {i : Instruction} (h : m.Stuck) :
    m.step ≠ (.ok i, next) := by
  intro hs
  have hm := isRunning_of_step hs
  rw [step_of_le_pc (isRunning_iff.1 hm) (h hm)] at hs
  cases hs

/-- A step that errs leaves a machine that is not running, and was tried on a stuck one. -/
theorem stuck_of_step {m next : Machine} {e : StepError} (h : m.step = (.error e, next)) :
    m.Stuck ∧ next.isRunning = false := by
  by_cases hm : m.state = .running
  · by_cases hpc : m.pc < 100
    · rw [step_of_pc_lt hm hpc] at h
      cases h
    · rw [step_of_le_pc hm (by omega)] at h
      cases h
      exact ⟨fun _ => by omega, rfl⟩
  · rw [step_of_ne_running hm] at h
    cases h
    exact ⟨fun hr => absurd (isRunning_iff.1 hr) hm, decide_eq_false hm⟩

/-- A step that errs changes nothing, or faults the machine. -/
theorem eq_or_eq_fault_of_step {m next : Machine} {e : StepError} (h : m.step = (.error e, next)) :
    next = m ∨ next = m.fault := by
  have hstuck := (stuck_of_step h).1
  by_cases hm : m.state = .running
  · rw [step_of_le_pc hm (hstuck (isRunning_iff.2 hm))] at h
    cases h
    exact .inr rfl
  · rw [step_of_ne_running hm] at h
    cases h
    exact .inl rfl

theorem Stuck.runUntil {m : Machine} (h : m.Stuck) {limit : Nat} (hc : m.cycles < limit) :
    Machine.runUntil limit m = m.closing := by
  unfold closing
  split
  · next hm => exact runUntil_of_error hm hc (step_of_le_pc (isRunning_iff.1 hm) (h hm))
  · next hm => exact runUntil_of_stop (.inl (by simpa using hm))

theorem Stuck.runOn {m : Machine} (h : m.Stuck) : Machine.runOn m = some m.closing := by
  unfold closing
  split
  · next hm => exact runOn_of_error hm (step_of_le_pc (isRunning_iff.1 hm) (h hm))
  · next hm => exact runOn_of_stop (by simpa using hm)

/-! ### Lifetimes -/

/-- How many steps a machine can take before it stops. -/
noncomputable def lifetime (m : Machine) : ℕ∞ :=
  ⨆ (n : ℕ) (_ : (m.steps? n).isSome), (n : ℕ∞)

/-- A machine lives for `n` steps if it can take them. -/
theorem natCast_le_lifetime_iff {m : Machine} {n : ℕ} :
    (n : ℕ∞) ≤ m.lifetime ↔ ∃ after, m.steps? n = some after := by
  constructor
  · intro h
    cases n with
    | zero => exact ⟨m, rfl⟩
    | succ n =>
      by_contra hnone
      have hle : m.lifetime ≤ n := by
        refine iSup₂_le fun k hk => ?_
        obtain ⟨after, hafter⟩ := Option.isSome_iff_exists.1 hk
        refine ENat.natCast_le_natCast.2 (Nat.le_of_not_lt fun hn => hnone ?_)
        exact exists_steps?_of_le hafter hn
      exact absurd (ENat.natCast_le_natCast.1 (h.trans hle)) (Nat.not_succ_le_self n)
  · rintro ⟨after, h⟩
    exact le_iSup₂_of_le n (Option.isSome_iff_exists.2 ⟨after, h⟩) le_rfl

/-- A lifetime ends where the machine is stuck. -/
theorem lifetime_eq_natCast_iff {m : Machine} {k : ℕ} :
    m.lifetime = k ↔ ∃ after, m.steps? k = some after ∧ after.Stuck := by
  have hsucc {after : Machine} (h : m.steps? k = some after) :
      m.steps? (k + 1) = after.steps? 1 := by
    rw [steps?_add, h, Option.bind_some]
  constructor
  · intro h
    obtain ⟨after, hafter⟩ := natCast_le_lifetime_iff.1 h.ge
    refine ⟨after, hafter, ?_⟩
    rcases hs : after.step with ⟨e | i, next⟩
    · exact (stuck_of_step hs).1
    · have hmore : ((k + 1 : ℕ) : ℕ∞) ≤ m.lifetime :=
        natCast_le_lifetime_iff.2 ⟨next, by rw [hsucc hafter, steps?_succ_of_ok hs, steps?_zero]⟩
      rw [h, ENat.natCast_le_natCast] at hmore
      omega
  · rintro ⟨after, hafter, hstuck⟩
    refine le_antisymm ?_ (natCast_le_lifetime_iff.2 ⟨after, hafter⟩)
    refine ENat.lt_natCast_add_one_iff.1 (lt_of_not_ge fun h => ?_)
    obtain ⟨last, hlast⟩ := natCast_le_lifetime_iff (n := k + 1).1 (by exact_mod_cast h)
    rw [hsucc hafter] at hlast
    obtain ⟨i, next, hs, -⟩ := steps?_succ_eq_some.1 hlast
    exact hstuck.not_step hs

/-- An infinite lifetime has no end. -/
theorem lifetime_ne_top_iff {m : Machine} :
    m.lifetime ≠ ⊤ ↔ ∃ k after, m.steps? k = some after ∧ after.Stuck := by
  rw [ENat.ne_top_iff_exists]
  exact exists_congr fun k => eq_comm.trans lifetime_eq_natCast_iff

/-! ### Runs by steps -/

/-- A limited run goes through the steps that its limit allows. -/
theorem runUntil_of_steps? {limit n : Nat} {m after : Machine} (h : m.steps? n = some after)
    (hn : m.cycles + n ≤ limit) : runUntil limit m = runUntil limit after := by
  induction n generalizing m with
  | zero =>
    cases h
    rfl
  | succ n ih =>
    obtain ⟨i, next, hs, hnext⟩ := steps?_succ_eq_some.1 h
    have hcycles := cycles_step hs
    rw [runUntil_of_ok (isRunning_of_step hs) (by omega) hs]
    exact ih hnext (by omega)

/-- An unlimited run goes through all steps. -/
theorem runOn_of_steps? {n : Nat} {m after : Machine} (h : m.steps? n = some after) :
    runOn m = runOn after := by
  induction n generalizing m with
  | zero =>
    cases h
    rfl
  | succ n ih =>
    obtain ⟨i, next, hs, hnext⟩ := steps?_succ_eq_some.1 h
    rw [runOn_of_ok (isRunning_of_step hs) hs]
    exact ih hnext

/-- An unlimited run that comes back has come to a stuck machine. The induction is on the rounds of
the run. -/
theorem runOn_eq_some_iff {m : Machine} {r : Option StepError × Machine} :
    runOn m = some r ↔ ∃ k after, m.steps? k = some after ∧ after.Stuck ∧ r = after.closing := by
  constructor
  · refine runOn.partial_correctness
      (fun m r => ∃ k after, m.steps? k = some after ∧ after.Stuck ∧ r = after.closing) ?_ m r
    intro rounds ih m r hround
    split at hround
    · next hm =>
      split at hround
      · next i next hs =>
        obtain ⟨k, after, hk, hstuck, hr⟩ := ih _ _ hround
        exact ⟨k + 1, after, steps?_succ_eq_some.2 ⟨i, next, hs, hk⟩, hstuck, hr⟩
      · next e next hs =>
        have hstuck := (stuck_of_step hs).1
        rw [step_of_le_pc (isRunning_iff.1 hm) (hstuck hm)] at hs
        cases hs
        cases hround
        exact ⟨0, m, rfl, hstuck, (if_pos hm).symm⟩
    · next hm =>
      cases hround
      exact ⟨0, m, rfl, fun h => absurd h hm, (if_neg hm).symm⟩
  · rintro ⟨k, after, hk, hstuck, rfl⟩
    rw [runOn_of_steps? hk, hstuck.runOn]

/-- A machine cannot be counted beyond its run: the count grows up to the limit. -/
theorem cycles_le_runUntil (limit : Nat) (m : Machine) :
    m.cycles ≤ (runUntil limit m).2.cycles := by
  fun_induction runUntil limit m with
  | case1 m hm i next hs ih =>
    have := cycles_step hs
    omega
  | case2 m hm e next hs =>
    rcases eq_or_eq_fault_of_step hs with rfl | rfl
    · exact Nat.le_refl _
    · exact Nat.le_refl _
  | case3 m hm => exact Nat.le_refl _

/-- Where a run without an error ends: the machine stopped, or the limit is reached. -/
theorem runUntil_exit {limit : Nat} {m after : Machine} (hm : m.cycles ≤ limit)
    (h : runUntil limit m = (none, after)) : after.isRunning = false ∨ after.cycles = limit := by
  fun_induction runUntil limit m with
  | case1 m hm i next hs ih =>
    have := cycles_step hs
    exact ih (by omega) h
  | case2 m hm e next hs => cases h
  | case3 m hstop =>
    cases h
    by_cases hr : after.isRunning = true
    · exact .inr (Nat.le_antisymm hm (Nat.le_of_not_lt fun hc => hstop ⟨hr, hc⟩))
    · exact .inl (by simpa using hr)

/-- A run without an error can be taken up again with a higher limit. -/
theorem runUntil_resume {limit limit' : Nat} (hl : limit ≤ limit') {m after : Machine}
    (h : runUntil limit m = (none, after)) : runUntil limit' m = runUntil limit' after := by
  fun_induction runUntil limit m with
  | case1 m hm i next hs ih =>
    rw [runUntil_of_ok hm.1 (by omega) hs]
    exact ih h
  | case2 m hm e next hs => cases h
  | case3 m hstop =>
    cases h
    rfl

/-- A run that errs does so with any higher limit, and leaves a machine that is not running. -/
theorem runUntil_of_err {limit limit' : Nat} (hl : limit ≤ limit') {m after : Machine}
    {e : StepError} (h : runUntil limit m = (some e, after)) :
    runUntil limit' m = (some e, after) ∧ after.isRunning = false := by
  fun_induction runUntil limit m with
  | case1 m hm i next hs ih =>
    rw [runUntil_of_ok hm.1 (by omega) hs]
    exact ih h
  | case2 m hm e' next hs =>
    cases h
    exact ⟨runUntil_of_error hm.1 (by omega) hs, (stuck_of_step hs).2⟩
  | case3 m hstop => cases h

/-! ### Limited runs -/

theorem runLimited_eq {m : Machine} {n : Nat} (hn : m.cycles + n ≤ cyclesEnd) :
    m.runLimited n = m.tally (runUntil (m.cycles + n) m) := by
  rw [runLimited, Nat.min_eq_left hn]

/-- A machine that is not running is left alone by a limited run. -/
theorem runLimited_of_stop {m : Machine} (hm : m.isRunning = false) (n : Nat) :
    m.runLimited n = (.ok 0, m) := by
  rw [runLimited, runUntil_of_stop (.inl hm), tally, Nat.sub_self]

/-- **A limited run can be split.** Two runs leave what one run leaves; if neither errs, neither
does the one, and the numbers of instructions add up. -/
theorem runLimited_runLimited {m : Machine} {a b : Nat} (h : m.cycles + a + b ≤ cyclesEnd) :
    ((m.runLimited a).2.runLimited b).2 = (m.runLimited (a + b)).2 ∧
      ∀ i j, (m.runLimited a).1 = .ok i → ((m.runLimited a).2.runLimited b).1 = .ok j →
        (m.runLimited (a + b)).1 = .ok (i + j) := by
  have hle : m.cycles + a ≤ m.cycles + (a + b) := by omega
  rw [runLimited_eq (n := a) (by omega), runLimited_eq (n := a + b) (by omega)]
  rcases hfirst : runUntil (m.cycles + a) m with ⟨_ | e, after⟩
  · rw [runUntil_resume hle hfirst]
    have hcount := cycles_le_runUntil (m.cycles + a) m
    rw [hfirst] at hcount
    rcases runUntil_exit (Nat.le_add_right _ _) hfirst with hstop | hlimit
    · -- the machine stopped short of the first limit, so that there is nothing left to run
      simp only [tally, runLimited_of_stop hstop, runUntil_of_stop (.inl hstop), true_and]
      intro i j hi hj
      cases hi
      cases hj
      rfl
    · have hsecond : after.cycles + b = m.cycles + (a + b) := by omega
      simp only [tally]
      rw [runLimited_eq (n := b) (by omega), hsecond]
      have hmore := cycles_le_runUntil (m.cycles + (a + b)) after
      rcases hlast : runUntil (m.cycles + (a + b)) after with ⟨_ | e, last⟩
      · rw [hlast] at hmore
        refine ⟨rfl, fun i j hi hj => ?_⟩
        cases hi
        cases hj
        simp only [Except.ok.injEq] at hcount hmore ⊢
        omega
      · exact ⟨rfl, fun i j hi hj => by cases hj⟩
  · obtain ⟨hwhole, hstop⟩ := runUntil_of_err hle hfirst
    rw [hwhole]
    rw [tally, runLimited_of_stop hstop]
    exact ⟨rfl, fun i j hi hj => by cases hi⟩

/-- A run of as many instructions as the machine can carry out, or fewer. -/
theorem runLimited_of_steps? {m after : Machine} {n : Nat} (hn : m.cycles + n ≤ cyclesEnd)
    (h : m.steps? n = some after) : m.runLimited n = (.ok n, after) := by
  have hcycles := cycles_steps? h
  rw [runLimited_eq hn, runUntil_of_steps? h (Nat.le_refl _),
    runUntil_of_stop (.inr (by omega)), tally, hcycles, Nat.add_sub_cancel_left]

/-- A run with a limit beyond the lifetime of the machine. -/
theorem runLimited_of_stuck {m after : Machine} {k n : Nat} (hn : m.cycles + n ≤ cyclesEnd)
    (h : m.steps? k = some after) (hstuck : after.Stuck) (hk : k < n) :
    m.runLimited n = m.tally after.closing := by
  have hcycles := cycles_steps? h
  rw [runLimited_eq hn, runUntil_of_steps? h (by omega), hstuck.runUntil (by omega)]

/-! ### The boundaries of runs -/

/-- A reachable machine that is stuck while running is just past memory. -/
theorem Stuck.pc_eq {m : Machine} (h : m.Stuck) (hm : m.Consistent) (hr : m.isRunning = true) :
    m.pc = 100 :=
  Nat.le_antisymm hm.pc_le (h hr)

/-- What a limited run comes to beyond the lifetime of a machine, an unlimited run comes to. -/
theorem run_eq_runLimited {m : Machine} {n : ℕ} (h : m.lifetime < n)
    (hn : m.cycles + n ≤ cyclesEnd) : m.run = some (m.runLimited n) := by
  obtain ⟨k, hk⟩ := ENat.ne_top_iff_exists.1 (ne_top_of_lt h)
  obtain ⟨after, hafter, hstuck⟩ := lifetime_eq_natCast_iff.1 hk.symm
  rw [← hk, ENat.natCast_lt_natCast] at h
  rw [runLimited_of_stuck hn hafter hstuck h, run, runOn_of_steps? hafter, hstuck.runOn,
    Option.map_some]

/-- An unlimited run comes back from a finite lifetime, and only from that. -/
theorem isSome_run_iff {m : Machine} : m.run.isSome ↔ m.lifetime ≠ ⊤ := by
  rw [lifetime_ne_top_iff, run, Option.isSome_map, Option.isSome_iff_exists]
  simp only [runOn_eq_some_iff]
  constructor
  · rintro ⟨_, k, after, hk, hstuck, -⟩
    exact ⟨k, after, hk, hstuck⟩
  · rintro ⟨k, after, hk, hstuck⟩
    exact ⟨_, k, after, hk, hstuck, rfl⟩

/-- A machine that halts has halted, also if the limit is reached with that. -/
theorem runLimited_of_halt {m after : Machine} {k n : Nat} (hn : m.cycles + n ≤ cyclesEnd)
    (h : m.steps? k = some after) (hstop : after.state ≠ .running) (hk : k ≤ n) :
    m.runLimited n = (.ok k, after) := by
  have hr : ¬after.isRunning = true := fun hr => hstop (isRunning_iff.1 hr)
  rcases Nat.lt_or_eq_of_le hk with hk | rfl
  · have hcycles := cycles_steps? h
    have hstuck : after.Stuck := fun hrun => absurd hrun hr
    rw [runLimited_of_stuck hn h hstuck hk, closing, if_neg hr, tally, hcycles,
      Nat.add_sub_cancel_left]
  · exact runLimited_of_steps? hn h

/-- A machine that leaves memory short of the limit faults. -/
theorem runLimited_of_fault {m after : Machine} {k n : Nat} (hn : m.cycles + n ≤ cyclesEnd)
    (h : m.steps? k = some after) (hrun : after.state = .running) (hpc : after.pc = 100)
    (hk : k < n) : m.runLimited n = (.error (.pcOutOfBounds 100), after.fault) := by
  have hstuck : after.Stuck := fun _ => hpc.ge
  rw [runLimited_of_stuck hn h hstuck hk, closing, if_pos (isRunning_iff.2 hrun), hpc, tally]

/-- **Runs are iterated steps.** A limited run of a reachable machine, whose limit the count of
cycles can hold, takes all its steps if the machine lives for so many. A machine that stops earlier
has halted, and the run answers how many steps that took; or it has left memory, and the run faults
it. Two limited runs make one. An unlimited run comes back if the machine does not live forever,
with what a limited run beyond its lifetime comes to. -/
theorem Reachable.run_eq_iterated_step {m : Machine} (h : m.Reachable) :
    (∀ n : ℕ, m.cycles + n ≤ cyclesEnd →
      (n ≤ m.lifetime → ∃ after, m.steps? n = some after ∧ m.runLimited n = (.ok n, after)) ∧
      ∀ k : ℕ, m.lifetime = k → ∃ after, m.steps? k = some after ∧
        (after.state ≠ .running → k ≤ n → m.runLimited n = (.ok k, after)) ∧
        (after.state = .running → k < n → ∃ last,
          after.step = (.error (.pcOutOfBounds 100), last) ∧
          m.runLimited n = (.error (.pcOutOfBounds 100), last) ∧
          last.state = .faulted ∧ last.cycles = m.cycles + k)) ∧
    (∀ a b : ℕ, m.cycles + a + b ≤ cyclesEnd →
      ((m.runLimited a).2.runLimited b).2 = (m.runLimited (a + b)).2 ∧
      ∀ i j, (m.runLimited a).1 = .ok i → ((m.runLimited a).2.runLimited b).1 = .ok j →
        (m.runLimited (a + b)).1 = .ok (i + j)) ∧
    (m.run.isSome ↔ m.lifetime ≠ ⊤) ∧
    ∀ n : ℕ, m.lifetime < n → m.cycles + n ≤ cyclesEnd → m.run = some (m.runLimited n) := by
  refine ⟨fun n hn => ⟨fun hlife => ?_, fun k hk => ?_⟩, fun a b => runLimited_runLimited,
    isSome_run_iff, fun n => run_eq_runLimited⟩
  · obtain ⟨after, hafter⟩ := natCast_le_lifetime_iff.1 hlife
    exact ⟨after, hafter, runLimited_of_steps? hn hafter⟩
  · obtain ⟨after, hafter, hstuck⟩ := lifetime_eq_natCast_iff.1 hk
    refine ⟨after, hafter, runLimited_of_halt hn hafter, fun hrun hkn => ?_⟩
    have hpc := hstuck.pc_eq (h.steps? hafter).consistent (isRunning_iff.2 hrun)
    have hcycles := cycles_steps? hafter
    refine ⟨after.fault, ?_, runLimited_of_fault hn hafter hrun hpc hkn, rfl, hcycles⟩
    rw [step_of_le_pc hrun hpc.ge, hpc]

/-- The boundaries of a machine that leaves memory after two steps: a limit of two does not show. -/
theorem Reachable.run_boundaries_at_two :
    let m := ((new .decimal).loadAt 0 [699]).loadAt 99 [902]
    m.lifetime = 2 ∧ m.runLimited 2 = (.ok 2, m.step.2.step.2) ∧
      m.step.2.step.2.state = .running ∧
      (m.runLimited 3).1 = .error (.pcOutOfBounds 100) ∧ m.run = some (m.runLimited 3) := by
  intro m
  have hm : m.Reachable :=
    ((reachable_new .decimal).perform (.loadAt 0 [699])).perform (.loadAt 99 [902])
  have hsteps : m.steps? 2 = some m.step.2.step.2 := by
    rw [steps?_of_pc_lt (by decide +kernel) (by decide +kernel),
      steps?_of_pc_lt (by decide +kernel) (by decide +kernel), steps?_zero]
  have hrun : m.step.2.step.2.state = .running := by decide +kernel
  have hpc : m.step.2.step.2.pc = 100 := by decide +kernel
  have hlife : m.lifetime = (2 : ℕ) :=
    lifetime_eq_natCast_iff.2 ⟨_, hsteps, fun _ => hpc.ge⟩
  obtain ⟨hlimited, -, -, hunlimited⟩ := Reachable.run_eq_iterated_step hm
  obtain ⟨after, hafter, htwo⟩ := (hlimited 2 (by decide +kernel)).1 hlife.ge
  obtain ⟨after', hafter', -, hthree⟩ := (hlimited 3 (by decide +kernel)).2 2 hlife
  rw [hsteps] at hafter hafter'
  cases hafter
  cases hafter'
  obtain ⟨last, -, hlast, -⟩ := hthree hrun (by decide)
  refine ⟨hlife, htwo, hrun, congrArg Prod.fst hlast, ?_⟩
  exact hunlimited 3 (hlife ▸ ENat.natCast_lt_natCast.2 (by decide)) (by decide +kernel)

end Machine

end LittleMan
