import LittleMan.Debugger
import LittleMan.Proofs.Machine.Lockstep
import LittleMan.Proofs.Machine.Runs
import LittleMan.Proofs.RunCommand
import LittleMan.Session

/-!
# Front ends

The run command, a session and the debugger each drive a machine with a loop of their own. All of
them leave the machine as a limited run does, and that is the machine after so many steps, whatever
the steps answered: a machine that stopped stays as it is. This makes the loops comparable, since
each of them is a loop over single steps with a test of its own when to go on.

The debugger notices only with the tick after the last step that the machine has stopped, so it
runs for one tick more than the machine has steps.

## Main results

* `Machine.runLimited_snd`, `Machine.after_of_run` — runs by any number of steps
* `Execution.run_snd`, `Debugger.iterate_tick` — the loops by any number of steps
* `Machine.front_ends_agree` — all front ends run the same machine
-/

namespace LittleMan

/-! ### Runs by any number of steps -/

namespace Machine

/-- A machine that stopped stays as it is. -/
theorem after_of_stop {m : Machine} (hm : m.isRunning = false) (n : Nat) : m.after n = m := by
  have hstate : m.state ≠ .running := fun h => by simp [isRunning_iff.2 h] at hm
  induction n with
  | zero => rfl
  | succ n ih => rw [after_succ, step_of_ne_running hstate, ih]

/-- Steps that carry out instructions are steps. -/
theorem after_of_steps? {m middle : Machine} {k : Nat} (h : m.steps? k = some middle) (n : Nat) :
    m.after (k + n) = middle.after n := by
  induction k generalizing m with
  | zero =>
    cases h
    rw [Nat.zero_add]
  | succ k ih =>
    obtain ⟨i, next, hs, hk⟩ := steps?_succ_eq_some.1 h
    rw [Nat.succ_add, after_succ, hs, ih hk]

/-- Steps of a stuck machine. -/
theorem Stuck.after {m : Machine} (h : m.Stuck) (n : Nat) : m.after (n + 1) = m.closing.2 := by
  unfold closing
  split
  · next hm =>
    rw [after_succ, step_of_le_pc (isRunning_iff.1 hm) (h hm)]
    exact after_of_stop rfl n
  · next hm => exact after_of_stop (by simpa using hm) _

theorem runUntil_snd (m : Machine) (n : Nat) : (runUntil (m.cycles + n) m).2 = m.after n := by
  induction n generalizing m with
  | zero => rw [Nat.add_zero, runUntil_of_stop (.inr (Nat.le_refl _)), after_zero]
  | succ n ih =>
    by_cases hm : m.isRunning = true
    · rcases hs : m.step with ⟨e | i, next⟩
      · rw [runUntil_of_error hm (by omega) hs, after_succ, hs,
          after_of_stop (stuck_of_step hs).2]
      · have hcycles : m.cycles + (n + 1) = next.cycles + n := by
          have := cycles_step hs
          omega
        rw [runUntil_of_ok hm (by omega) hs, hcycles, ih, after_succ, hs]
    · have hstop : m.isRunning = false := by simpa using hm
      rw [runUntil_of_stop (.inl hstop), after_of_stop hstop]

/-- **What a limited run leaves** is the machine after as many steps as the limit allows. -/
theorem runLimited_snd {m : Machine} {n : Nat} (hn : m.cycles + n ≤ cyclesEnd) :
    (m.runLimited n).2 = m.after n := by
  rw [runLimited_eq hn, tally_snd, runUntil_snd]

/-- What an unlimited run leaves is the machine after more steps than it carried out. -/
theorem after_of_run {m last : Machine} {result : Except StepError Nat}
    (h : m.run = some (result, last)) {n : Nat} (hn : last.cycles < m.cycles + n) :
    m.after n = last := by
  obtain ⟨e, hrun, -⟩ := run_eq_some.1 h
  obtain ⟨k, middle, hk, hstuck, hlast⟩ := runOn_eq_some_iff.1 hrun
  have hcycles : last.cycles = m.cycles + k := by
    rw [← cycles_steps? hk, show last = middle.closing.2 from congrArg Prod.snd hlast, closing]
    split <;> rfl
  obtain ⟨more, rfl⟩ := Nat.exists_eq_add_of_le (show k + 1 ≤ n by omega)
  rw [Nat.add_assoc, after_of_steps? hk, Nat.add_comm 1, hstuck.after, ← hlast]

end Machine

/-! ### The loop of the run command -/

namespace Execution

theorem loop_snd (traced : Bool) (n : Nat) (told : Transcript) (m : Machine) :
    (loop traced n told m).2 = m.after n := by
  induction n generalizing told m with
  | zero => rfl
  | succ n ih =>
    rw [loop]
    split
    · exact ih _ _
    · next hm => exact (Machine.after_of_stop (by simpa using hm) _).symm

theorem run_snd (traced : Bool) (limit : Nat) (m : Machine) :
    (run traced limit m).2 = m.after (allowance limit) :=
  loop_snd traced _ [] m

theorem run_snd_of_limit (traced : Bool) {limit : Nat} {m : Machine} (hlimit : limit ≠ 0)
    (hn : m.cycles + limit ≤ Machine.cyclesEnd) :
    (run traced limit m).2 = (m.runLimited limit).2 := by
  rw [run_snd, allowance, if_neg hlimit, Machine.runLimited_snd hn]

/-- Without a limit the loop goes on for more rounds than a count of cycles can hold. -/
theorem run_snd_of_run (traced : Bool) {m last : Machine} {result : Except StepError Nat}
    (h : m.run = some (result, last)) (hlast : last.cycles ≤ Machine.cyclesEnd) :
    (run traced 0 m).2 = last := by
  have hpatience : Machine.cyclesEnd < patience := by decide
  rw [run_snd, allowance, if_pos rfl]
  exact Machine.after_of_run h (by omega)

end Execution

/-! ### A session -/

/-- A session fails if the run does, and otherwise answers the count of cycles. -/
theorem Session.run_spec (s : Session) (limit : Nat) :
    (s.run limit).2 = { s with machine := (s.machine.runLimited limit).2 } ∧
      (∀ e, (s.run limit).1 = .error e ↔ (s.machine.runLimited limit).1 = .error e) ∧
      ∀ c, (s.run limit).1 = .ok c → c = (s.machine.runLimited limit).2.cycles := by
  rcases hrun : s.machine.runLimited limit with ⟨e | n, next⟩
  · simp [run, hrun, Except.map]
  · simp [run, hrun, Except.map, eq_comm]

/-! ### The debugger -/

namespace Debugger

/-- A tick of a debugger that is not running does nothing. -/
theorem tick_of_not_running {d : Debugger} (h : d.running = false) : d.tick = d := by
  simp [tick, h]

/-- A tick while an instruction is carried out. -/
theorem tick_of_ok {d : Debugger} {i : Instruction} {next : Machine} (hd : d.running = true)
    (h : d.machine.step = (.ok i, next)) : d.tick.running = true ∧ d.tick.machine = next := by
  have hm := Machine.isRunning_of_step h
  simp [tick, step, hd, hm, h]

/-- A tick of a machine that can carry out none. -/
theorem tick_of_error {d : Debugger} {e : StepError} {next : Machine} (hd : d.running = true)
    (h : d.machine.step = (.error e, next)) : d.tick.running = false ∧ d.tick.machine = next := by
  by_cases hm : d.machine.isRunning = true
  · simp [tick, step, hd, hm, h]
  · have hstate : d.machine.state ≠ .running := fun hs => hm (Machine.isRunning_iff.2 hs)
    rw [Machine.step_of_ne_running hstate] at h
    cases h
    simp [tick, hd, hm]

/-- **Ticks are steps**, and the debugger runs on as long as each of them carried out an
instruction. -/
theorem iterate_tick {d : Debugger} (hd : d.running = true) (j : ℕ) :
    (tick^[j] d).machine = d.machine.after j ∧
      ((tick^[j] d).running = true ↔ j ≤ d.machine.lifetime) := by
  rw [Machine.natCast_le_lifetime_iff]
  induction j generalizing d with
  | zero => exact ⟨rfl, fun _ => ⟨d.machine, rfl⟩, fun _ => hd⟩
  | succ j ih =>
    rw [Function.iterate_succ_apply, Machine.after_succ]
    rcases hs : d.machine.step with ⟨e | i, next⟩
    · obtain ⟨hrunning, hmachine⟩ := tick_of_error hd hs
      rw [Function.iterate_fixed (tick_of_not_running hrunning), hrunning, hmachine,
        Machine.after_of_stop (Machine.stuck_of_step hs).2, Machine.steps?_succ_of_error hs]
      simp
    · obtain ⟨hrunning, hmachine⟩ := tick_of_ok hd hs
      rw [Machine.steps?_succ_of_ok hs, ← hmachine]
      exact ih hrunning

end Debugger

/-! ### All front ends -/

namespace Machine

/-- **All front ends run the same machine.** Whatever drives a machine leaves it as a limited run
does, as long as the count of cycles can hold the limit: the loop of the run command, which without
a limit leaves what an unlimited run leaves, a session, and a debugger that runs for so many ticks.
The run command exits with 2 for a machine that has faulted, and tells that the limit was reached
for one that is still running. A session fails if the run does, or else answers the count of
cycles. A debugger is running as long as all its ticks carried out an instruction. -/
theorem front_ends_agree (m : Machine) :
    (∀ (traced : Bool) (limit : ℕ), limit ≠ 0 → m.cycles + limit ≤ cyclesEnd →
      (Execution.run traced limit m).2 = (m.runLimited limit).2) ∧
    (∀ (traced : Bool) (result : Except StepError Nat) (last : Machine),
      m.run = some (result, last) → last.cycles ≤ cyclesEnd →
      (Execution.run traced 0 m).2 = last) ∧
    (∀ options : Command.RunOptions,
      let (during, left) := Execution.run options.trace options.maxCycles m
      Invocation.Concludes options left (during ++ Invocation.report options left)
        (Invocation.exitOf left)) ∧
    (∀ (i : Invocation) (stdin : List UInt8) (t : FileTree) (told : Transcript)
      (options : Command.RunOptions),
      i.begin (i.fetch stdin t) (i.linesLeft stdin) = .execute told m options →
      Invocation.Concludes options (Execution.run options.trace options.maxCycles m).2
        (i.carryOut stdin t).told (i.carryOut stdin t).exit) ∧
    (∀ (s : Session) (limit : ℕ), s.machine = m →
      (s.run limit).2 = { s with machine := (m.runLimited limit).2 } ∧
      (∀ e, (s.run limit).1 = .error e ↔ (m.runLimited limit).1 = .error e) ∧
      ∀ c, (s.run limit).1 = .ok c → c = (m.runLimited limit).2.cycles) ∧
    ∀ (d : Debugger) (j : ℕ), d.machine = m →
      (m.cycles + j ≤ cyclesEnd →
        (Debugger.tick^[j] d.run).machine = (m.runLimited j).2) ∧
      ((Debugger.tick^[j] d.run).running = true ↔ j ≤ m.lifetime) := by
  refine ⟨fun traced limit => Execution.run_snd_of_limit traced,
    fun traced result last => Execution.run_snd_of_run traced,
    fun options => Invocation.concludes_report (Execution.calm_run _ _ _) _ _,
    fun i stdin t told options => Invocation.concludes_carryOut, fun s limit hs => ?_,
    fun d j hd => ?_⟩
  · subst hs
    exact s.run_spec limit
  · obtain ⟨hmachine, hrunning⟩ := Debugger.iterate_tick (d := d.run) rfl j
    rw [Debugger.machine_run, hd] at hmachine hrunning
    exact ⟨fun hn => hmachine.trans (runLimited_snd hn).symm, hrunning⟩

/-- The front ends with a typed-in program that writes an instruction to the last mailbox and jumps
there, so that the machine faults after four steps. -/
theorem front_ends_agree_of_fault :
    let i : Invocation := ⟨.warn, .run "-" {} { maxCycles := 5 }⟩
    let stdin := Text.encode "503\n399\n699\n902".toList
    let m := ((Source.cells [503, 399, 699, 902]).build {} true #[]).2
    m.lifetime = 4 ∧ (m.runLimited 5).1 = .error (.pcOutOfBounds 100) ∧
      (Execution.run false 5 m).2 = (m.runLimited 5).2 ∧
      (Execution.run false 0 m).2 = (m.runLimited 5).2 ∧
      (i.carryOut stdin {}).exit = 2 ∧
      ¬(Report.limitNotice 5).map Chunk.outLine <:+: (i.carryOut stdin {}).told ∧
      (Session.run ⟨m, [], [], []⟩ 5).1 = .error (.pcOutOfBounds 100) ∧
      (Debugger.tick^[5] (Debugger.start m).run).machine = (m.runLimited 5).2 ∧
      (Debugger.tick^[4] (Debugger.start m).run).running = true ∧
      (Debugger.tick^[5] (Debugger.start m).run).running = false := by
  intro i stdin m
  have hrun : (m.after 4).state = .running := by decide +kernel
  have hpc : (m.after 4).pc = 100 := by decide +kernel
  have hsteps : m.steps? 4 = some (m.after 4) := by
    rw [steps?_of_pc_lt (by decide +kernel) (by decide +kernel),
      steps?_of_pc_lt (by decide +kernel) (by decide +kernel),
      steps?_of_pc_lt (by decide +kernel) (by decide +kernel),
      steps?_of_pc_lt (by decide +kernel) (by decide +kernel)]
    rfl
  have hlife : m.lifetime = (4 : ℕ) :=
    lifetime_eq_natCast_iff.2 ⟨_, hsteps, fun _ => hpc.ge⟩
  have hcycles : m.cycles + 5 ≤ cyclesEnd := by decide +kernel
  have hfault : m.runLimited 5 = (.error (.pcOutOfBounds 100), (m.after 4).fault) :=
    runLimited_of_fault hcycles hsteps hrun hpc (by decide)
  have hwhole : m.run = some (m.runLimited 5) :=
    run_eq_runLimited (hlife ▸ ENat.natCast_lt_natCast.2 (by decide)) hcycles
  have hlast : (m.runLimited 5).2.cycles ≤ cyclesEnd := by
    rw [hfault]
    decide +kernel
  have hfind : (Origin.ofName "-").find "-" (.ok stdin) =
      ([], some (.cells [503, 399, 699, 902])) := by decide +kernel
  have hbegin := Invocation.begin_of_find (i := i) rfl hfind #[]
  obtain ⟨hlimited, hunlimited, -, hprocess, hsession, hdebugger⟩ := front_ends_agree m
  have hleft := hlimited false 5 (by decide) hcycles
  obtain ⟨hexit, hnotice⟩ := hprocess i stdin {} _ _ hbegin
  have hstate : (Execution.run false 5 m).2.state = .faulted := by rw [hleft, hfault]; rfl
  obtain ⟨-, herror, -⟩ := hsession ⟨m, [], [], []⟩ 5 rfl
  obtain ⟨hmachine, hstopped⟩ := hdebugger (Debugger.start m) 5 rfl
  obtain ⟨-, hrunning⟩ := hdebugger (Debugger.start m) 4 rfl
  refine ⟨hlife, by rw [hfault], hleft, hunlimited false _ _ hwhole hlast, hexit.2 hstate, ?_,
    (herror _).2 (by rw [hfault]), hmachine hcycles, hrunning.2 hlife.ge, ?_⟩
  · exact fun h => absurd (hstate.symm.trans (hnotice.1 h).2) (by decide)
  · refine Bool.eq_false_iff.2 fun h => ?_
    have hle := hstopped.1 h
    rw [hlife, ENat.natCast_le_natCast] at hle
    omega

end Machine

end LittleMan
