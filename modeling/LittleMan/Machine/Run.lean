import LittleMan.Machine.Step

/-!
# Runs

A run repeats the step while the machine is running. A limited run also stops once the machine has
carried out a given number of instructions; it reads this off the count of cycles, which every
instruction brings closer to the limit, so that such a run always comes to an end. The limit is no
more than a count of cycles can hold. An unlimited run need not come to an end, and has no answer
then.

## Main definitions

* `Machine.runUntil`, `Machine.runLimited` — steps up to a count of cycles, and a limited run
* `Machine.runOn`, `Machine.run` — steps without a limit, and an unlimited run
* `TraceEntry`, `Machine.trace` — what each step did, step by step

## Main results

* `Machine.runUntil_of_stop`, `Machine.runUntil_of_ok`, `Machine.runUntil_of_error` — the three
  cases of a round, and the same for `Machine.runOn`
-/

namespace LittleMan

/-- What one step did: where it began, what it answered, and the accumulator after it. -/
structure TraceEntry where
  /-- The program counter before the step. -/
  pc : Nat
  /-- The answer of the step. -/
  result : Except StepError Instruction
  /-- The accumulator after the step. -/
  acc : Int

namespace Machine

/-- The greatest count of cycles. -/
def cyclesEnd : Nat := 0xFFFFFFFFFFFFFFFF

/-- Step a machine while it is running and its count of cycles is below `limit`. A step that errs
ends this too; the error is handed on. -/
def runUntil (limit : Nat) (m : Machine) : Option StepError × Machine :=
  if _hm : m.isRunning ∧ m.cycles < limit then
    match _hs : m.step with
    | (.ok _, next) => runUntil limit next
    | (.error e, next) => (some e, next)
  else (none, m)
termination_by limit - m.cycles
decreasing_by
  have := cycles_step _hs
  omega

/-- Step a machine while it is running. A step that errs ends this too; the error is handed on. A
machine that never stops has no answer. -/
def runOn (m : Machine) : Option (Option StepError × Machine) :=
  if m.isRunning then
    match m.step with
    -- with `apply`, since the term of a call written out would hold its position in this file
    | (.ok _, next) => by
      apply runOn
      exact next
    | (.error e, next) => some (some e, next)
  else some (none, m)
partial_fixpoint

/-- The answer of a run of `m` that ended in an error, or without one: the error, or else the number
of instructions carried out. -/
def tally (m : Machine) : Option StepError × Machine → Except StepError Nat × Machine
  | (none, after) => (.ok (after.cycles - m.cycles), after)
  | (some e, after) => (.error e, after)

/-- Run for at most `limit` instructions. The answer counts the instructions carried out. -/
def runLimited (m : Machine) (limit : Nat) : Except StepError Nat × Machine :=
  m.tally (runUntil (min (m.cycles + limit) cyclesEnd) m)

/-- Run until the machine stops. A machine that never stops has no answer. -/
def run (m : Machine) : Option (Except StepError Nat × Machine) :=
  (runOn m).map m.tally

/-- Up to `n` steps with what each of them did. The first step that errs is the last. -/
def trace : Nat → Machine → List TraceEntry × Machine
  | 0, m => ([], m)
  | n + 1, m =>
    match m.step with
    | (.ok i, next) =>
      let (entries, after) := trace n next
      (⟨m.pc, .ok i, next.acc⟩ :: entries, after)
    | (.error e, next) => ([⟨m.pc, .error e, next.acc⟩], next)

@[simp] theorem tally_snd (m : Machine) (r : Option StepError × Machine) :
    (m.tally r).2 = r.2 := by
  obtain ⟨_ | _, _⟩ := r <;> rfl

/-- An unlimited run that comes back, by the steps it made. -/
theorem run_eq_some {m next : Machine} {result : Except StepError Nat} :
    m.run = some (result, next) ↔
      ∃ e, runOn m = some (e, next) ∧ m.tally (e, next) = (result, next) := by
  simp only [run, Option.map_eq_some_iff]
  constructor
  · rintro ⟨⟨e, after⟩, h, hr⟩
    obtain rfl : after = next := by simpa using congrArg Prod.snd hr
    exact ⟨e, h, hr⟩
  · rintro ⟨e, h, hr⟩
    exact ⟨(e, next), h, hr⟩

/-- A machine that is not running, or has reached the limit, is left alone. -/
theorem runUntil_of_stop {limit : Nat} {m : Machine}
    (h : m.isRunning = false ∨ limit ≤ m.cycles) : runUntil limit m = (none, m) := by
  rw [runUntil, dif_neg]
  rintro ⟨hm, hc⟩
  rcases h with h | h
  · simp [h] at hm
  · omega

theorem runUntil_of_ok {limit : Nat} {m next : Machine} {i : Instruction}
    (hm : m.isRunning = true) (hc : m.cycles < limit) (h : m.step = (.ok i, next)) :
    runUntil limit m = runUntil limit next := by
  rw [runUntil, dif_pos ⟨hm, hc⟩]
  split
  · next h' => simp_all
  · next h' => simp_all

theorem runUntil_of_error {limit : Nat} {m next : Machine} {e : StepError}
    (hm : m.isRunning = true) (hc : m.cycles < limit) (h : m.step = (.error e, next)) :
    runUntil limit m = (some e, next) := by
  rw [runUntil, dif_pos ⟨hm, hc⟩]
  split
  · next h' => simp_all
  · next h' => simp_all

/-- A machine that is not running is left alone. -/
theorem runOn_of_stop {m : Machine} (h : m.isRunning = false) : runOn m = some (none, m) := by
  rw [runOn]
  simp [h]

theorem runOn_of_ok {m next : Machine} {i : Instruction} (hm : m.isRunning = true)
    (h : m.step = (.ok i, next)) : runOn m = runOn next := by
  rw [runOn, if_pos hm, h]

theorem runOn_of_error {m next : Machine} {e : StepError} (hm : m.isRunning = true)
    (h : m.step = (.error e, next)) : runOn m = some (some e, next) := by
  rw [runOn, if_pos hm, h]

end Machine

end LittleMan
