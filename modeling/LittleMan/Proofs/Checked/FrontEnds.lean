import LittleMan.Debugger
import LittleMan.Proofs.Checked.Machine
import LittleMan.Proofs.LineGrammar
import LittleMan.Session

/-!
# No operation traps

A machine, a debugger and a session are used alike: by one action after the other, each of which
answers and leaves the device in another state. With checks, each of them does what it does without
checks, or the count of cycles of its machine passes its end. What one action does to a device, any
number of them do; that induction is made once, for all devices.

So the checks are idle for as long as fewer than 2⁶⁴ instructions were carried out since the last
reset. The view of memory and the listing of a debugger need no such condition.

## Main definitions

* `Debugger.Action`, `Debugger.Reply` — what can be done with a debugger, and what it answers
* `Device`, `Device.play`, `Device.playChecked` — something that holds a machine, and using it
* `Device.fits` — every action comes back with a count that fits
* `Machine.device`, `Debugger.device`, `Session.device` — the three devices

## Main results

* `Debugger.listingChecked_eq` — a listing never traps
* `Device.playChecked_of_fits`, `Device.overruns_of_trap` — any number of actions
* `operations_never_trap` — no operation traps before the count of cycles is at its end
-/

namespace LittleMan

open Machine (Guarded Overruns cyclesEnd)

/-! ### The debugger -/

namespace Debugger

/-- The debugger after its machine was stepped. -/
def afterStep (d : Debugger) : Except StepError Instruction × Machine → Debugger
  | (.ok i, next) =>
    let status :=
      match next.diagnostics[d.machine.diagnostics.size]? with
      | some condition => .reported d.machine.pc condition
      | none => .stepped d.machine.pc i
    { d with machine := next, status := status }
  | (.error e, next) => { d with machine := next, status := .failed e, running := false }

/-- Take one step. -/
def stepChecked (d : Debugger) : Except Trap Debugger :=
  if d.machine.isRunning then d.machine.stepChecked.map d.afterStep
  else return { d with status := .stopped d.machine.state, running := false }

/-- Take one step if running. A machine that has stopped ends the run. -/
def tickChecked (d : Debugger) : Except Trap Debugger :=
  if d.running then
    if d.machine.isRunning then d.stepChecked
    else
      return { d with
        running := false
        status := .finished d.machine.state d.machine.cycles }
  else return d

/-- Go back to the memory and the input queue that debugging began with. -/
def resetChecked (d : Debugger) : Except Trap Debugger := do
  let (_, loaded) ← d.machine.reset.loadAtChecked 0 d.image
  return { d with machine := loaded.queue d.inputs, running := false, status := .reset }

/-- The listing around the program counter, at most `count` lines. -/
def listingChecked (d : Debugger) (count : Nat) : Except Trap (List ListingRow) := do
  let first := d.listingStart count
  let past ← Checked.sum first count
  (List.range' first (min past Memory.size - first)).mapM fun a => do
    let raw ← d.machine.memory.readChecked a
    return ⟨a, Listing.assembly raw, a = d.machine.pc⟩

theorem step_of_running {d : Debugger} (h : d.machine.isRunning = true) :
    d.step = d.afterStep d.machine.step := by
  rcases hs : d.machine.step with ⟨e | i, next⟩
  · simp [step, afterStep, h, hs]
  · cases hnew : next.diagnostics[d.machine.diagnostics.size]? <;>
      simp [step, afterStep, h, hs, hnew]

theorem machine_afterStep (d : Debugger) (r : Except StepError Instruction × Machine) :
    (d.afterStep r).machine = r.2 := by
  obtain ⟨_ | _, _⟩ := r <;> rfl

section

variable {d : Debugger} (hd : d.machine.cycles ≤ cyclesEnd)

include hd

theorem guarded_step :
    d.machine.Guarded (fun next => next.machine.cycles) (some d.step) d.stepChecked := by
  by_cases h : d.machine.isRunning = true
  · rw [step_of_running h, stepChecked, if_pos h]
    refine (Machine.guarded_step hd).map d.afterStep fun r => ?_
    rw [machine_afterStep]
  · rw [step, stepChecked, if_neg h, if_neg h]
    exact .back hd

theorem guarded_tick :
    d.machine.Guarded (fun next => next.machine.cycles) (some d.tick) d.tickChecked := by
  rw [tick, tickChecked]
  by_cases h : d.running = true
  · rw [if_pos h, if_pos h]
    by_cases hm : d.machine.isRunning = true
    · rw [if_pos hm, if_pos hm]
      exact guarded_step hd
    · rw [if_neg hm, if_neg hm]
      exact .back hd
  · rw [if_neg h, if_neg h]
    exact .back hd

end

theorem resetChecked_eq (d : Debugger) : d.resetChecked = .ok d.reset := by
  rw [resetChecked, Machine.loadAtChecked_eq]
  rfl

/-- **A listing never traps**, however many lines it is to have. More lines than memory has begin at
mailbox zero, so that their end is no more than their number. -/
theorem listingChecked_eq (d : Debugger) {count : Nat} (hcount : count ≤ Numeral.greatestCount) :
    d.listingChecked count = .ok (d.listing count) := by
  have hpast : d.listingStart count + count ≤ Numeral.greatestCount := by
    simp only [listingStart, Memory.size, Numeral.greatestCount] at hcount ⊢
    omega
  rw [listingChecked, Checked.sum_eq hpast]
  refine Checked.mapM_eq fun a ha => ?_
  have hlt : a < 100 := by
    have hrange := List.mem_range'_1.1 ha
    simp only [Memory.size] at hrange
    omega
  rw [Memory.readChecked_eq _ hlt]
  rfl

/-- What can be done with a debugger. -/
inductive Action
  /-- Take one step. -/
  | step
  /-- Begin to run. -/
  | run
  /-- Take one step if running. -/
  | tick
  /-- Go back to where debugging began. -/
  | reset
  /-- Move the view of memory. -/
  | scrollBy (delta : Int)
  /-- List memory around the program counter. -/
  | listing (count : UInt64)
  /-- Do something to the machine that is debugged. -/
  | call (c : Call)

/-- What a debugger answers. -/
inductive Reply
  /-- Nothing to say. -/
  | done
  /-- A listing. -/
  | listed (rows : List ListingRow)
  /-- What its machine answers. -/
  | answered (answer : Answer)

/-- The answer to an action and the debugger afterwards, if it comes back. -/
def act (d : Debugger) : Action → Option (Reply × Debugger)
  | .step => some (.done, d.step)
  | .run => some (.done, d.run)
  | .tick => some (.done, d.tick)
  | .reset => some (.done, d.reset)
  | .scrollBy delta => some (.done, d.scrollBy delta)
  | .listing count => some (.listed (d.listing count.toNat), d)
  | .call c => (d.machine.call c).map fun r => (.answered r.1, { d with machine := r.2 })

/-- The same with checks. -/
def actChecked (d : Debugger) : Action → Except Trap (Reply × Debugger)
  | .step => d.stepChecked.map fun next => (.done, next)
  | .run => return (.done, d.run)
  | .tick => d.tickChecked.map fun next => (.done, next)
  | .reset => d.resetChecked.map fun next => (.done, next)
  | .scrollBy delta => return (.done, d.scrollBy delta)
  | .listing count => (d.listingChecked count.toNat).map fun rows => (.listed rows, d)
  | .call c => (d.machine.callChecked c).map fun r => (.answered r.1, { d with machine := r.2 })

theorem guarded_act {d : Debugger} (hd : d.machine.cycles ≤ cyclesEnd) (a : Action) :
    d.machine.Guarded (fun r => r.2.machine.cycles) (d.act a) (d.actChecked a) := by
  cases a with
  | step => exact (guarded_step hd).map (fun next => (Reply.done, next)) fun _ => rfl
  | run => exact .back hd
  | tick => exact (guarded_tick hd).map (fun next => (Reply.done, next)) fun _ => rfl
  | reset =>
    rw [actChecked, resetChecked_eq]
    exact .back (Nat.zero_le _)
  | scrollBy delta => exact .back hd
  | listing count =>
    have hcount : count.toNat ≤ Numeral.greatestCount := Nat.le_of_lt_succ count.toNat_lt
    rw [actChecked, listingChecked_eq d hcount]
    exact .back hd
  | call c =>
    refine (Machine.guarded_call hd c).map
      (fun r => (Reply.answered r.1, { d with machine := r.2 })) ?_
    exact fun _ => rfl

end Debugger

/-! ### Sessions -/

namespace Session

/-- Go back to the program that was loaded last, with all input since then queued again. -/
def resetChecked (s : Session) : Except Trap Session := do
  let (_, loaded) ← s.machine.reset.loadAtChecked 0 s.program
  return { s with machine := loaded.queue s.inputs }

/-- Load program text. -/
def loadTextChecked (s : Session) (source : String) : Except Trap Session :=
  let text := ProgramText.parse source
  { s with program := text.cells, skipped := text.skipped, inputs := [] }.resetChecked

/-- Make a call. -/
def callChecked (s : Session) :
    SessionCall → Except Trap (Except SessionError SessionAnswer × Session)
  | .loadText source =>
    (s.loadTextChecked source).map fun next => (.ok (.loaded next.program.length), next)
  | .loadSample name =>
    match Sample.find? name with
    | some sample => do
      let m ← Machine.prepareChecked sample sample.inputs s.machine
      return (.ok .done,
        { machine := m, program := m.memory.toList, inputs := sample.inputs, skipped := [] })
    | none => return (.error (.unknownSample name), s)
  | .addInput w => return (.ok .done, s.addInput w)
  | .step => s.machine.stepChecked.map fun r =>
    ((r.1.map .stepped).mapError .step, { s with machine := r.2 })
  | .run limit => (s.machine.runLimitedChecked limit).map fun r =>
    (((r.1.map fun _ => r.2.cycles).map .ran).mapError .step, { s with machine := r.2 })
  | .reset => s.resetChecked.map fun next => (.ok .done, next)

theorem resetChecked_eq (s : Session) : s.resetChecked = .ok s.reset := by
  rw [resetChecked, Machine.loadAtChecked_eq]
  rfl

theorem guarded_call {s : Session} (hs : s.machine.cycles ≤ cyclesEnd) (c : SessionCall) :
    s.machine.Guarded (fun r => r.2.machine.cycles) (some (s.call c)) (s.callChecked c) := by
  cases c with
  | loadText source =>
    rw [callChecked, loadTextChecked, resetChecked_eq]
    exact .back (Nat.zero_le _)
  | loadSample name =>
    rw [call, callChecked, loadSample?]
    cases Sample.find? name with
    | some sample =>
      change s.machine.Guarded _ _
        (Machine.prepareChecked sample sample.inputs s.machine >>= _)
      rw [Machine.prepareChecked_eq]
      exact .back ((Machine.cycles_prepare sample sample.inputs s.machine).trans_le (Nat.zero_le _))
    | none => exact .back hs
  | addInput w => exact .back hs
  | step =>
    refine (Machine.guarded_step hs).map
      (fun r => ((r.1.map SessionAnswer.stepped).mapError SessionError.step,
        { s with machine := r.2 })) ?_
    exact fun _ => rfl
  | run limit =>
    rw [callChecked, Machine.runLimitedChecked_eq]
    exact .back (Machine.cycles_runLimited_le hs limit)
  | reset =>
    rw [callChecked, resetChecked_eq]
    exact .back (Nat.zero_le _)

end Session

/-! ### Devices -/

/-- Something that holds a machine and is used by actions, without checks and with them. -/
structure Device (σ α β : Type) where
  /-- The machine that it holds. -/
  machine : σ → Machine
  /-- The answer to an action and the state afterwards, if it comes back. -/
  act : σ → α → Option (β × σ)
  /-- The same with checks. -/
  actChecked : σ → α → Except Trap (β × σ)
  /-- The checks pass, or the count of cycles passes its end. -/
  guarded : ∀ {s : σ}, (machine s).cycles ≤ cyclesEnd → ∀ a : α,
    (machine s).Guarded (fun r => (machine r.2).cycles) (act s a) (actChecked s a)

namespace Device

variable {σ α β : Type} (D : Device σ α β)

/-- The answers to a list of actions and the state afterwards, if all of them come back. -/
def play (s : σ) : List α → Option (List β × σ)
  | [] => some ([], s)
  | a :: rest =>
    match D.act s a with
    | none => none
    | some (answer, next) => (play next rest).map fun r => (answer :: r.1, r.2)

/-- The same with checks. -/
def playChecked (s : σ) : List α → Except Trap (List β × σ)
  | [] => .ok ([], s)
  | a :: rest =>
    match D.actChecked s a with
    | .error t => .error t
    | .ok (answer, next) => (playChecked next rest).map fun r => (answer :: r.1, r.2)

/-- Whether every one of a list of actions comes back, with a count of cycles that is a count. -/
def fits (s : σ) : List α → Bool
  | [] => true
  | a :: rest =>
    match D.act s a with
    | none => false
    | some (_, next) => decide ((D.machine next).cycles ≤ cyclesEnd) && fits next rest

/-- **The checks are idle** as long as the count of cycles fits. -/
theorem playChecked_of_fits {s : σ} {actions : List α} (hs : (D.machine s).cycles ≤ cyclesEnd)
    (h : D.fits s actions = true) :
    ∃ r, D.play s actions = some r ∧ D.playChecked s actions = .ok r := by
  induction actions generalizing s with
  | nil => exact ⟨_, rfl, rfl⟩
  | cons a rest ih =>
    have hguarded := D.guarded hs a
    rw [fits] at h
    rw [play, playChecked]
    generalize D.act s a = plain, D.actChecked s a = checked at hguarded h ⊢
    cases hguarded with
    | @back r hr =>
      obtain ⟨answer, next⟩ := r
      obtain ⟨-, hrest⟩ := Bool.and_eq_true_iff.1 h
      obtain ⟨r, hplay, hchecked⟩ := ih hr hrest
      exact ⟨(answer :: r.1, r.2), by simp [hplay], by simp [hchecked, Except.map]⟩
    | overrun hplain hover =>
      -- no action that comes back with a count that fits is an overrun
      rcases plain with _ | ⟨answer, next⟩
      · cases h
      · have hnext := of_decide_eq_true (Bool.and_eq_true_iff.1 h).1
        exact absurd hnext (Nat.not_le.2 (hplain _ rfl))

/-- **A trap is an overrun.** Where a checked device traps, some of its actions came back, and in
the state that they led to its machine carries out more instructions than can be counted. -/
theorem overruns_of_trap {s : σ} {actions : List α} {t : Trap}
    (hs : (D.machine s).cycles ≤ cyclesEnd) (h : D.playChecked s actions = .error t) :
    t = .sum cyclesEnd 1 ∧ ∃ before answers middle, before <+: actions ∧
      D.play s before = some (answers, middle) ∧ (D.machine middle).Overruns := by
  induction actions generalizing s with
  | nil => cases h
  | cons a rest ih =>
    have hguarded := D.guarded hs a
    rw [playChecked] at h
    generalize hplain : D.act s a = plain, D.actChecked s a = checked at hguarded h
    cases hguarded with
    | @back r hr =>
      obtain ⟨answer, next⟩ := r
      have hrest : D.playChecked next rest = .error t := by
        change (D.playChecked next rest).map _ = .error t at h
        cases hlater : D.playChecked next rest with
        | ok _ =>
          rw [hlater] at h
          cases h
        | error _ =>
          rw [hlater] at h
          exact h
      obtain ⟨ht, before, answers, middle, hprefix, hplay, hover⟩ := ih hr hrest
      refine ⟨ht, a :: before, answer :: answers, middle, ?_, ?_, hover⟩
      · exact List.cons_prefix_cons.2 ⟨rfl, hprefix⟩
      · rw [play, hplain]
        simp [hplay]
    | overrun _ hover =>
      cases h
      exact ⟨rfl, [], [], s, List.nil_prefix, rfl, hover⟩

/-- No action of a device traps while fewer instructions are carried out, since the last reset, than
can be counted. -/
structure Safe : Prop where
  /-- As long as the count of cycles fits, all checks pass, and they change nothing. -/
  passes : ∀ {s : σ} {actions : List α}, (D.machine s).cycles ≤ cyclesEnd →
    D.fits s actions = true → ∃ r, D.play s actions = some r ∧ D.playChecked s actions = .ok r
  /-- The one trap is that a count of cycles that is at its end is counted on, and it is met only in
  a state where the machine does carry out that many instructions. -/
  overruns : ∀ {s : σ} {actions : List α} {t : Trap}, (D.machine s).cycles ≤ cyclesEnd →
    D.playChecked s actions = .error t →
      t = .sum cyclesEnd 1 ∧ ∃ before answers middle, before <+: actions ∧
        D.play s before = some (answers, middle) ∧ (D.machine middle).Overruns

theorem safe : D.Safe where
  passes := D.playChecked_of_fits
  overruns := D.overruns_of_trap

end Device

/-- A machine is used by calls. -/
def Machine.device : Device Machine Call Answer where
  machine := id
  act := Machine.call
  actChecked := Machine.callChecked
  guarded := Machine.guarded_call

/-- A debugger, by what a debugger does, and by calls to its machine. -/
def Debugger.device : Device Debugger Debugger.Action Debugger.Reply where
  machine := Debugger.machine
  act := Debugger.act
  actChecked := Debugger.actChecked
  guarded := Debugger.guarded_act

/-- A session, by its calls. -/
def Session.device : Device Session SessionCall (Except SessionError SessionAnswer) where
  machine := Session.machine
  act s c := some (s.call c)
  actChecked := Session.callChecked
  guarded := Session.guarded_call

/-- **No operation traps.** Use a machine, a debugger or a session by any actions with any
arguments: words, mailboxes to start from, samples, texts, limits, providers, numbers of lines,
moves of the view. Check every access to memory, every slice that a load takes, and every plain sum
and difference of counts. As long as the count of cycles fits, all checks pass. The one trap there
is takes 2⁶⁴ instructions since the last reset. A range of mailboxes can be read without any
condition, and the lines of a text are no more than its characters, so that they can be numbered.
-/
theorem operations_never_trap :
    Machine.device.Safe ∧ Debugger.device.Safe ∧ Session.device.Safe ∧
      (∀ (m : Memory) (first last : Nat), m.rangeChecked first last = .ok (m.range first last)) ∧
      ∀ (source : String), ∀ line ∈ (ProgramText.parse source).skipped,
        line.number ≤ source.length :=
  ⟨Machine.device.safe, Debugger.device.safe, Session.device.safe, Memory.rangeChecked_eq,
    fun _ _ hline => ProgramText.number_le_of_mem_parse hline⟩

/-- A debugger with the greatest arguments there are, whose program stores into the last mailbox and
runs off the end of memory, and a machine whose count of cycles is at its end, which traps. -/
theorem operations_never_trap_of_extremes :
    let start := Debugger.start ((Machine.new .bounded64).load [599, 399, 698])
    let actions : List Debugger.Action :=
      [.scrollBy (-0x8000000000000000), .listing 0xFFFFFFFFFFFFFFFF, .scrollBy 0x7FFFFFFFFFFFFFFF,
        .call (.operation (.loadAt 0xFFFFFFFFFFFFFFFF [1, 2])), .step, .run, .tick,
        .call (.operation (.loadAt 98 [902, 902, 0x7FFFFFFFFFFFFFFF])),
        .call (.operation (.runLimited 0xFFFFFFFFFFFFFFFF)), .listing 7]
    let worn := { Machine.new .decimal with cycles := cyclesEnd }
    Debugger.device.fits start actions = true ∧
      (∃ replies last, Debugger.device.playChecked start actions = .ok (replies, last) ∧
        last.scroll = 99 ∧ last.machine.pc = 100 ∧ last.machine.isFaulted = true) ∧
      Machine.device.playChecked worn [.operation .step] = .error (.sum cyclesEnd 1) ∧
      ∃ before answers middle, before <+: [.operation .step] ∧
        Machine.device.play worn before = some (answers, middle) ∧ middle.Overruns := by
  intro start actions worn
  have hfits : Debugger.device.fits start actions = true := by decide +kernel
  obtain ⟨hmachine, hdebugger, -⟩ := operations_never_trap
  obtain ⟨⟨replies, last⟩, hplay, hchecked⟩ := hdebugger.passes (Nat.zero_le _) hfits
  have hlast : (Debugger.device.play start actions).map
      (fun r => (r.2.scroll, r.2.machine.pc, r.2.machine.isFaulted)) = some (99, 100, true) := by
    decide +kernel
  rw [hplay] at hlast
  obtain ⟨hscroll, hpc, hfaulted⟩ : last.scroll = 99 ∧ last.machine.pc = 100 ∧
      last.machine.isFaulted = true := by simpa using hlast
  have htrap : Machine.device.playChecked worn [.operation .step] = .error (.sum cyclesEnd 1) := rfl
  have hworn : (Machine.device.machine worn).cycles ≤ cyclesEnd := Nat.le_refl _
  obtain ⟨-, hover⟩ := hmachine.overruns hworn htrap
  exact ⟨hfits, ⟨replies, last, hchecked, hscroll, hpc, hfaulted⟩, htrap, hover⟩

end LittleMan
