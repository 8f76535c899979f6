import LittleMan.Proofs.Checked.Memory
import LittleMan.Proofs.Machine.Ledger

/-!
# Machines with checks

Everything that can be done to a machine, with every access to memory and all arithmetic on counts
checked. A word that is read as an instruction names one of the mailboxes, so that memory is never
accessed beyond its end. What a run counts is a difference that cannot be negative. What is left is
the count of cycles itself, which is at its end after 2⁶⁴ - 1 instructions. A checked machine traps
with the next one, and for no other reason. A limited run does not even come to that, since its
limit is a count.

## Main definitions

* `Machine.executeChecked`, `Machine.stepChecked` — one instruction and one step
* `Machine.repeatChecked` — the loop of both kinds of run
* `Machine.callChecked` — a call
* `Machine.Overruns` — a machine carries out more instructions than can be counted
* `Machine.Guarded` — how a checked computation goes

## Main results

* `Machine.guarded_step`, `Machine.guarded_runOn` — one step, and the loop of an unlimited run
* `Machine.runLimitedChecked_eq` — a limited run never traps
* `Machine.guarded_call` — a call
-/

namespace LittleMan

namespace Machine

/-! ### The operations -/

/-- Load words from mailbox `start` on, and say how many were written. -/
def loadAtChecked (m : Machine) (start : Nat) (ws : List Int) : Except Trap (Nat × Machine) := do
  let (count, memory) ← m.memory.loadChecked start (ws.map m.policy.clamp)
  return (count,
    { m with memory := memory, diagnostics := m.diagnostics ++ Diagnostic.clampings m.policy ws })

/-- Load words one by one, each into a mailbox of its own. -/
def presetChecked (data : List (Nat × Int)) (m : Machine) : Except Trap Machine :=
  data.foldlM (fun m cell => (m.loadAtChecked cell.1 [cell.2]).map Prod.snd) m

/-- Reset, load a sample and queue input for it. -/
def prepareChecked (s : Sample) (inputs : List Int) (m : Machine) : Except Trap Machine := do
  let (_, loaded) ← m.reset.loadAtChecked 0 s.cells
  let complete ← presetChecked s.data loaded
  return complete.queue inputs

/-- Carry out an instruction that was fetched from mailbox `pc`. -/
def executeChecked (m : Machine) (pc : Nat) : Instruction → Except Trap Machine
  | .add a => return m.withAcc (m.policy.add m.acc (← m.memory.readChecked a))
  | .sub a => return m.withAcc (m.policy.sub m.acc (← m.memory.readChecked a))
  | .sta a => return { m with memory := ← m.memory.writeChecked a m.acc }
  | .lda a => return m.withAcc (← m.memory.readChecked a)
  -- no other instruction reads memory or writes it
  | i => return m.execute pc i

/-- One step. -/
def stepChecked (m : Machine) : Except Trap (Except StepError Instruction × Machine) :=
  if m.state = .running then
    match m.memory.get? m.pc with
    | none => return (.error (.pcOutOfBounds m.pc), m.fault)
    | some raw => do
      let i := Instruction.decode raw
      let next ← m.advance.executeChecked m.pc i
      let cycles ← Checked.sum next.cycles 1
      return (.ok i, { next with cycles := cycles, last := some i })
  else return (.error (.notRunning m.state), m)

/-! ### One instruction -/

theorem loadAtChecked_eq (m : Machine) (start : Nat) (ws : List Int) :
    m.loadAtChecked start ws = .ok (Memory.fitting start ws.length, m.loadAt start ws) := by
  rw [loadAtChecked, Memory.loadChecked_eq, List.length_map]
  rfl

theorem presetChecked_eq (data : List (Nat × Int)) (m : Machine) :
    presetChecked data m = .ok (Sample.preset data m) := by
  induction data generalizing m with
  | nil => rfl
  | cons cell rest ih =>
    rw [presetChecked, List.foldlM_cons, loadAtChecked_eq]
    exact ih (m.loadAt cell.1 [cell.2])

theorem prepareChecked_eq (s : Sample) (inputs : List Int) (m : Machine) :
    prepareChecked s inputs m = .ok (s.prepare inputs m) := by
  rw [prepareChecked, loadAtChecked_eq]
  change (presetChecked s.data (m.reset.load s.cells) >>= _) = _
  rw [presetChecked_eq]
  rfl

/-- An instruction that names a mailbox, if any, is carried out. -/
theorem executeChecked_eq (m : Machine) (pc : Nat) {i : Instruction}
    (hi : ∀ a, i.operand = some a → a < 100) :
    m.executeChecked pc i = .ok (m.execute pc i) := by
  cases i with
  | add a | sub a | lda a =>
    rw [executeChecked, Memory.readChecked_eq _ (hi a rfl)]
    rfl
  | sta a =>
    rw [executeChecked, Memory.writeChecked_eq _ (hi a rfl)]
    rfl
  | _ => rfl

/-- **A step traps on the count of cycles only.** -/
theorem stepChecked_of_pc_lt {m : Machine} (hm : m.state = .running) (hpc : m.pc < 100) :
    m.stepChecked = if m.cycles < cyclesEnd then .ok m.step else .error (.sum m.cycles 1) := by
  have hoperand : ∀ a, (Instruction.decode (m.memory.get m.pc)).operand = some a → a < 100 :=
    fun _ => Instruction.operand_decode_lt
  rw [stepChecked, if_pos hm, Memory.get?_eq_some_get hpc]
  change (executeChecked m.advance m.pc _ >>= _) = _
  rw [executeChecked_eq _ _ hoperand]
  change (Checked.sum (m.advance.execute m.pc _).cycles 1 >>= _) = _
  rw [cycles_execute, step_of_pc_lt hm hpc]
  change (Checked.sum m.cycles 1 >>= _) = _
  by_cases hc : m.cycles < cyclesEnd
  · rw [if_pos hc, Checked.sum_eq hc]
    simp [account, advance, bind, Except.bind, pure, Except.pure]
  · have hsum : Checked.sum m.cycles 1 = .error (.sum m.cycles 1) := if_neg hc
    rw [if_neg hc, hsum]
    rfl

/-- A machine that carries out no instruction does not trap. -/
theorem stepChecked_of_error {m next : Machine} {e : StepError} (h : m.step = (.error e, next)) :
    m.stepChecked = .ok (.error e, next) := by
  by_cases hm : m.state = .running
  · by_cases hpc : m.pc < 100
    · rw [step_of_pc_lt hm hpc] at h
      cases h
    · rw [step_of_le_pc hm (Nat.not_lt.1 hpc)] at h
      rw [stepChecked, if_pos hm, Memory.get?_eq_none_iff.2 (Nat.not_lt.1 hpc), ← h]
      rfl
  · rw [step_of_ne_running hm] at h
    rw [stepChecked, if_neg hm, ← h]
    rfl

theorem stepChecked_of_ok {m next : Machine} {i : Instruction} (h : m.step = (.ok i, next)) :
    m.stepChecked =
      if next.cycles ≤ cyclesEnd then .ok (.ok i, next) else .error (.sum m.cycles 1) := by
  have hm := isRunning_iff.1 (isRunning_of_step h)
  by_cases hpc : m.pc < 100
  · rw [stepChecked_of_pc_lt hm hpc, cycles_step h, h]
    rfl
  · rw [step_of_le_pc hm (Nat.not_lt.1 hpc)] at h
    cases h

/-- A checked step that comes back is the step. -/
theorem step_eq_of_stepChecked {m : Machine} {r : Except StepError Instruction × Machine}
    (h : m.stepChecked = .ok r) : m.step = r := by
  rcases hs : m.step with ⟨e | i, next⟩
  · rw [stepChecked_of_error hs] at h
    exact Except.ok.inj h
  · rw [stepChecked_of_ok hs] at h
    split at h
    · exact Except.ok.inj h
    · cases h

/-! ### How a checked computation goes -/

/-- `m` carries out more instructions than can be counted. -/
def Overruns (m : Machine) : Prop :=
  ∃ n last, m.steps? n = some last ∧ cyclesEnd < last.cycles

/-- How a checked computation on `m` goes, next to the plain one, which need not come back. `count`
reads the count of cycles off a result. -/
inductive Guarded {ρ : Type} (m : Machine) (count : ρ → Nat) : Option ρ → Except Trap ρ → Prop
  /-- Both come back with the same result. -/
  | back {r : ρ} (h : count r ≤ cyclesEnd) : Guarded m count (some r) (.ok r)
  /-- The count passes its end, which the plain computation does not notice. -/
  | overrun {plain : Option ρ} (hplain : ∀ r, plain = some r → cyclesEnd < count r)
      (hm : m.Overruns) : Guarded m count plain (.error (.sum cyclesEnd 1))

theorem Guarded.map {ρ ρ' : Type} {m : Machine} {count : ρ → Nat} {count' : ρ' → Nat}
    {plain : Option ρ} {checked : Except Trap ρ} (h : m.Guarded count plain checked) (f : ρ → ρ')
    (hf : ∀ r, count' (f r) = count r) : m.Guarded count' (plain.map f) (checked.map f) := by
  cases h with
  | back h => exact .back (hf _ ▸ h)
  | overrun hplain hm =>
    refine .overrun ?_ hm
    intro r hr
    obtain ⟨r, hplain', rfl⟩ := Option.map_eq_some_iff.1 hr
    exact hf r ▸ hplain r hplain'

theorem Overruns.of_step {m next : Machine} {i : Instruction} (h : m.step = (.ok i, next))
    (hnext : next.Overruns) : m.Overruns := by
  obtain ⟨n, last, hn, hlast⟩ := hnext
  exact ⟨n + 1, last, (steps?_succ_of_ok h n).trans hn, hlast⟩

/-- An error of a step does not count. -/
theorem cycles_of_error {m next : Machine} {e : StepError} (h : m.step = (.error e, next)) :
    next.cycles = m.cycles := by
  rcases eq_or_eq_fault_of_step h with rfl | rfl
  · rfl
  · rfl

/-- **A checked step** is a step, unless the count was at its end. -/
theorem guarded_step {m : Machine} (hm : m.cycles ≤ cyclesEnd) :
    m.Guarded (fun r => r.2.cycles) (some m.step) m.stepChecked := by
  rcases hs : m.step with ⟨e | i, next⟩
  · rw [stepChecked_of_error hs]
    exact .back ((cycles_of_error hs).trans_le hm)
  · rw [stepChecked_of_ok hs]
    split
    · next hnext => exact .back hnext
    · next hnext =>
      have hend : m.cycles = cyclesEnd := by
        have := cycles_step hs
        omega
      rw [hend]
      refine .overrun ?_ ⟨1, next, steps?_succ_of_ok hs 0, Nat.not_le.1 hnext⟩
      intro r hr
      cases hr
      exact Nat.not_le.1 hnext

/-! ### Runs -/

/-- Step a machine as long as it is to go on. A step that errs ends this too. -/
def repeatChecked (goesOn : Machine → Bool) (m : Machine) :
    Except Trap (Option StepError × Machine) :=
  if goesOn m then
    match _hs : m.stepChecked with
    | .error t => .error t
    | .ok (.error e, next) => .ok (some e, next)
    | .ok (.ok _, next) => repeatChecked goesOn next
  else .ok (none, m)
termination_by cyclesEnd - m.cycles
decreasing_by
  have hstep := step_eq_of_stepChecked _hs
  rw [stepChecked_of_ok hstep] at _hs
  split at _hs
  · have := cycles_step hstep
    omega
  · cases _hs

/-- What a run answers: the number of instructions that it counted, or the error it ended with. -/
def tallyChecked (m : Machine) :
    Option StepError × Machine → Except Trap (Except StepError Nat × Machine)
  | (none, after) => return (.ok (← Checked.difference after.cycles m.cycles), after)
  | (some e, after) => return (.error e, after)

/-- Run for at most `limit` instructions. -/
def runLimitedChecked (m : Machine) (limit : Nat) :
    Except Trap (Except StepError Nat × Machine) := do
  let stop := min (m.cycles + limit) cyclesEnd
  let r ← repeatChecked (fun n => n.isRunning && n.cycles < stop) m
  m.tallyChecked r

/-- Run until the machine stops. -/
def runChecked (m : Machine) : Except Trap (Except StepError Nat × Machine) := do
  let r ← repeatChecked isRunning m
  m.tallyChecked r

section

variable {goesOn : Machine → Bool} {m next : Machine}

theorem repeatChecked_of_stop (h : goesOn m = false) : repeatChecked goesOn m = .ok (none, m) := by
  rw [repeatChecked, h, if_neg Bool.false_ne_true]

theorem repeatChecked_of_error {e : StepError} (h : goesOn m = true)
    (hs : m.stepChecked = .ok (.error e, next)) :
    repeatChecked goesOn m = .ok (some e, next) := by
  rw [repeatChecked, if_pos h]
  split <;> simp_all

theorem repeatChecked_of_ok {i : Instruction} (h : goesOn m = true)
    (hs : m.stepChecked = .ok (.ok i, next)) :
    repeatChecked goesOn m = repeatChecked goesOn next := by
  rw [repeatChecked, if_pos h]
  split <;> simp_all

end

/-- A run that ended counted on, so that its answer can be told. -/
theorem tallyChecked_eq {m : Machine} {r : Option StepError × Machine}
    (h : m.cycles ≤ r.2.cycles) : m.tallyChecked r = .ok (m.tally r) := by
  obtain ⟨_ | e, after⟩ := r
  · rw [tallyChecked, Checked.difference_eq h]
    rfl
  · rfl

/-- A loop up to a limit never traps: it ends before the count does. -/
theorem repeatChecked_eq_runUntil {stop : Nat} (hstop : stop ≤ cyclesEnd) (m : Machine) :
    repeatChecked (fun n => n.isRunning && n.cycles < stop) m = .ok (runUntil stop m) := by
  fun_induction runUntil stop m with
  | case1 m hm i next hs ih =>
    have hcycles := cycles_step hs
    have hchecked : m.stepChecked = .ok (.ok i, next) := by
      rw [stepChecked_of_ok hs, if_pos (by omega)]
    rw [repeatChecked_of_ok (by simpa using hm) hchecked]
    exact ih
  | case2 m hm e next hs =>
    rw [repeatChecked_of_error (by simpa using hm) (stepChecked_of_error hs)]
  | case3 m hm =>
    rw [repeatChecked_of_stop (by simpa using hm)]

/-- **A limited run never traps.** -/
theorem runLimitedChecked_eq (m : Machine) (limit : Nat) :
    m.runLimitedChecked limit = .ok (m.runLimited limit) := by
  rw [runLimitedChecked, repeatChecked_eq_runUntil (Nat.min_le_right _ _)]
  exact tallyChecked_eq (cycles_le_runUntil _ m)

theorem cycles_runLimited_le {m : Machine} (hm : m.cycles ≤ cyclesEnd) (limit : Nat) :
    (m.runLimited limit).2.cycles ≤ cyclesEnd := by
  rw [runLimited, tally_snd]
  have hstop : min (m.cycles + limit) cyclesEnd ≤ cyclesEnd := Nat.min_le_right _ _
  generalize min (m.cycles + limit) cyclesEnd = stop at hstop
  fun_induction runUntil stop m with
  | case1 m hm' i next hs ih =>
    have := cycles_step hs
    exact ih (by omega)
  | case2 m hm' e next hs => exact (cycles_of_error hs).trans_le hm
  | case3 m hm' => exact hm

/-- A machine cannot be counted beyond an unlimited run either. -/
theorem cycles_le_runOn {m : Machine} {r : Option StepError × Machine} (h : runOn m = some r) :
    m.cycles ≤ r.2.cycles := by
  obtain ⟨k, after, hk, -, rfl⟩ := runOn_eq_some_iff.1 h
  have hclosing : after.closing.2.cycles = after.cycles := by
    rw [closing]
    split <;> rfl
  rw [hclosing, cycles_steps? hk]
  exact Nat.le_add_right _ _

/-- **The loop of an unlimited run** comes back as it does without checks, or the count passes its
end. The induction is on the rounds of the checked loop, which the count of cycles bounds. -/
theorem guarded_runOn {m : Machine} (hm : m.cycles ≤ cyclesEnd) :
    m.Guarded (fun r => r.2.cycles) (runOn m) (repeatChecked isRunning m) := by
  fun_induction repeatChecked isRunning m with
  | case1 m hrun t hs =>
    have hstep := guarded_step hm
    rw [hs] at hstep
    rcases hstep with _ | ⟨hplain, hover⟩
    refine .overrun ?_ hover
    rcases hplainstep : m.step with ⟨e | i, next⟩
    · rw [stepChecked_of_error hplainstep] at hs
      cases hs
    · rw [runOn_of_ok hrun hplainstep]
      intro r hr
      have hnext := hplain _ (congrArg some hplainstep)
      exact hnext.trans_le (cycles_le_runOn hr)
  | case2 m hrun e next hs =>
    have hstep := step_eq_of_stepChecked hs
    rw [runOn_of_error hrun hstep]
    exact .back ((cycles_of_error hstep).trans_le hm)
  | case3 m hrun i next hs ih =>
    have hstep := step_eq_of_stepChecked hs
    have hnext : next.cycles ≤ cyclesEnd := by
      rw [stepChecked_of_ok hstep] at hs
      by_contra hnext
      rw [if_neg hnext] at hs
      cases hs
    have hrest := ih hnext
    rw [runOn_of_ok hrun hstep]
    generalize runOn next = plain, repeatChecked isRunning next = checked at hrest ⊢
    cases hrest with
    | back h => exact .back h
    | overrun hplain hover => exact .overrun hplain (hover.of_step hstep)
  | case4 m hrun =>
    rw [runOn_of_stop (by simpa using hrun)]
    exact .back hm

/-- **An unlimited run.** -/
theorem guarded_run {m : Machine} (hm : m.cycles ≤ cyclesEnd) :
    m.Guarded (fun r => r.2.cycles) m.run m.runChecked := by
  have h := guarded_runOn hm
  have htally : ∀ r, runOn m = some r → m.tallyChecked r = .ok (m.tally r) :=
    fun r hr => tallyChecked_eq (cycles_le_runOn hr)
  rw [run, runChecked]
  generalize runOn m = plain, repeatChecked isRunning m = checked at h htally ⊢
  cases h with
  | back h =>
    change m.Guarded _ _ (m.tallyChecked _)
    rw [htally _ rfl]
    exact .back (by rwa [tally_snd])
  | overrun hplain hover =>
    refine .overrun ?_ hover
    intro r hr
    obtain ⟨r, hr', rfl⟩ := Option.map_eq_some_iff.1 hr
    rw [tally_snd]
    exact hplain r hr'

/-! ### Calls -/

/-- Do something to a machine. -/
def performChecked : Operation → Machine → Except Trap (Answer × Machine)
  | .loadAt start ws, m =>
    (m.loadAtChecked start ws).map fun (count, next) => (.written count, next)
  | .queue ws, m => return (.done, m.queue ws)
  | .attach p, m => return (.done, m.attach p)
  | .reset, m => return (.done, m.reset)
  | .prepare s inputs, m => (prepareChecked s inputs m).map fun next => (.done, next)
  | .step, m => m.stepChecked.map fun (result, next) => (.stepped result, next)
  | .runLimited limit, m =>
    (m.runLimitedChecked limit).map fun (result, next) => (.ran result, next)

/-- Make a call. -/
def callChecked (m : Machine) : Call → Except Trap (Answer × Machine)
  | .operation o => performChecked o m
  | .run => m.runChecked.map fun (result, next) => (.ran result, next)

theorem cycles_preset (data : List (Nat × Int)) (m : Machine) :
    (Sample.preset data m).cycles = m.cycles := by
  induction data generalizing m with
  | nil => rfl
  | cons cell rest ih =>
    rw [Sample.preset_cons, ih]
    rfl

theorem cycles_prepare (s : Sample) (inputs : List Int) (m : Machine) :
    (s.prepare inputs m).cycles = 0 :=
  cycles_preset s.data (m.reset.load s.cells)

/-- **A call** comes back as it does without checks, or the count passes its end. -/
theorem guarded_call {m : Machine} (hm : m.cycles ≤ cyclesEnd) (c : Call) :
    m.Guarded (fun r => r.2.cycles) (m.call c) (m.callChecked c) := by
  match c with
  | .operation (.loadAt start ws) =>
    rw [callChecked, performChecked, loadAtChecked_eq]
    exact .back hm
  | .operation (.queue ws) => exact .back hm
  | .operation (.attach p) => exact .back hm
  | .operation .reset => exact .back (Nat.zero_le _)
  | .operation (.prepare s inputs) =>
    rw [callChecked, performChecked, prepareChecked_eq]
    exact .back ((cycles_prepare s inputs m).trans_le (Nat.zero_le _))
  | .operation .step =>
    exact (guarded_step hm).map (fun r => (Answer.stepped r.1, r.2)) fun _ => rfl
  | .operation (.runLimited limit) =>
    rw [callChecked, performChecked, runLimitedChecked_eq]
    exact .back (cycles_runLimited_le hm limit)
  | .run => exact (guarded_run hm).map (fun r => (Answer.ran r.1, r.2)) fun _ => rfl

end Machine

end LittleMan
