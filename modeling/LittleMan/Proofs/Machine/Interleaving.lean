import LittleMan.Proofs.Machine.Lockstep

/-!
# Input and steps interleaved

Whoever feeds a machine and whoever steps it need not keep time with each other. When a value is
queued makes no difference, as long as it is there when an input instruction wants it: whatever the
schedule, the machine comes to where it would be had all input been queued before the first step.
Only the place among the diagnostics at which a word out of range is reported tells the schedules
apart.

The proviso cannot be dropped. An input instruction that finds nothing waiting asks the provider,
and a value that is queued after that comes too late for it.

## Main definitions

* `Turn`, `Machine.play` — a turn of a schedule, and going through all turns
* `Machine.neverAsks` — no step of a schedule finds the queue empty when it takes input
* `Machine.AheadBy` — a machine is where another one is, with input queued that the other lacks yet

## Main results

* `Machine.AheadBy.step` — both stay together in a step that does not ask
* `Machine.play_spec` — a schedule does what queueing all input at first and then stepping does
* `Machine.Reachable.play_interleaved` — so any two schedules come to the same
-/

namespace LittleMan

/-- A turn of a schedule. -/
inductive Turn
  /-- Queue a value of input. -/
  | queue (w : Int)
  /-- Take a step. -/
  | step
  deriving DecidableEq

/-- The input that a turn queues. -/
def Turn.queued? : Turn → Option Int
  | queue w => some w
  | step => none

namespace Machine

/-! ### Schedules -/

/-- What the steps of a schedule answer, in order, and the machine afterwards. -/
def play : Machine → List Turn → List (Except StepError Instruction) × Machine
  | m, [] => ([], m)
  | m, .queue w :: rest => (m.queue [w]).play rest
  | m, .step :: rest =>
    let (result, next) := m.step
    let (later, last) := next.play rest
    (result :: later, last)

/-- Whether no step of a schedule carries out an input instruction while nothing waits. -/
def neverAsks : Machine → List Turn → Bool
  | _, [] => true
  | m, .queue w :: rest => (m.queue [w]).neverAsks rest
  | m, .step :: rest => !m.asks && m.step.2.neverAsks rest

/-! ### Instructions that do not ask -/

section Waits

variable {m : Machine} {i : Instruction} (hwaits : i = .inp → m.pending ≠ [])

include hwaits

theorem providerAfter_of_waits : m.providerAfter i = m.provider := by
  cases i with
  | inp => exact if_neg (hwaits rfl)
  | _ => rfl

/-- What is reported by an instruction that does not ask depends on the counter alone. -/
theorem reported_of_waits {n : Machine} (hpc : n.pc = m.pc) (hwaits' : i = .inp → n.pending ≠ []) :
    n.reported i = m.reported i := by
  cases i with
  | inp => simp only [reported, if_neg (hwaits rfl), if_neg (hwaits' rfl)]
  | unknown raw => simp only [reported, hpc]
  | _ => rfl

theorem filter_reported_of_waits : (m.reported i).filter Diagnostic.isClamping = [] := by
  cases i with
  | inp => simp only [reported, if_neg (hwaits rfl), List.filter_nil]
  | _ => rfl

/-- More input behind that which waits changes neither what is taken nor what is left in front. -/
theorem input?_of_append {n : Machine} {more : List Int} (h : n.pending = m.pending ++ more)
    (hi : i = .inp) : n.input? = m.input? := by
  obtain ⟨w, rest, hpending⟩ := List.exists_cons_of_ne_nil (hwaits hi)
  simp [input?, h, hpending]

theorem pendingAfter_of_append {n : Machine} {more : List Int}
    (h : n.pending = m.pending ++ more) : n.pendingAfter i = m.pendingAfter i ++ more := by
  cases i with
  | inp =>
    obtain ⟨w, rest, hpending⟩ := List.exists_cons_of_ne_nil (hwaits rfl)
    simp [pendingAfter, h, hpending]
  | _ => exact h

end Waits

/-- What waits is there for the instruction of a step that does not ask. -/
theorem pending_ne_nil_of_asks {m : Machine} {i : Instruction} (hupcoming : m.upcoming = i)
    (hmust : m.asks = m.mustAsk) (hasks : m.asks = false) : i = .inp → m.pending ≠ [] := by
  intro hi hpending
  rw [hmust, mustAsk, hupcoming, hi, hpending] at hasks
  exact absurd hasks (by decide)

/-! ### Being ahead -/

/-- `n.AheadBy later m` says that `n` is where `m` is, with the input `later` queued already. -/
structure AheadBy (n : Machine) (later : List Int) (m : Machine) : Prop where
  agree : n.Agree m
  provider : n.provider = m.provider
  pending : n.pending = m.pending ++ later.map m.policy.clamp
  conditions : n.conditions = m.conditions
  clamped : n.clamped = m.clamped ++ Diagnostic.clampings m.policy later

theorem aheadBy_queue (m : Machine) (later : List Int) : (m.queue later).AheadBy later m where
  agree := (Agree.refl m).queue later
  provider := rfl
  pending := m.pending_queue later
  conditions := conditions_queue m later
  clamped := clamped_queue m later

/-- The machine behind catches up with one value. -/
theorem AheadBy.queue {m n : Machine} {w : Int} {later : List Int}
    (h : n.AheadBy (w :: later) m) : n.AheadBy later (m.queue [w]) where
  agree := (h.agree.symm.queue [w]).symm
  provider := h.provider
  pending := by
    rw [h.pending, pending_queue]
    exact List.append_cons _ _ _
  conditions := by rw [h.conditions, conditions_queue]
  clamped := by
    rw [h.clamped, clamped_queue, List.append_assoc]
    exact congrArg _ (Diagnostic.clampings_append m.policy [w] later)

/-- **Both stay together** in a step, unless the machine behind asks for what the other has. -/
theorem AheadBy.step {m n : Machine} {later : List Int} (h : n.AheadBy later m)
    (hm : m.Consistent) (hn : n.Consistent) (hasks : m.asks = false) :
    m.step.1 = n.step.1 ∧ n.step.2.AheadBy later m.step.2 := by
  cases h.agree.symm.stepsAlike hm hn with
  | refuse hm hn =>
    rw [hm, hn]
    exact ⟨rfl, h⟩
  | fault hm hn =>
    rw [hm, hn]
    refine ⟨rfl, h.agree.fault, h.provider, h.pending, ?_, ?_⟩
    · rw [conditions_fault, conditions_fault, h.conditions, h.agree.pc]
    · rw [clamped_fault, clamped_fault]
      exact h.clamped
  | @carry i m' n' hms hns hmf hnf hupcoming hmust =>
    rw [hms, hns]
    have hwaits := pending_ne_nil_of_asks hupcoming hmust hasks
    have hwaits' : i = .inp → n.pending ≠ [] := by
      intro hi
      rw [h.pending]
      exact List.append_ne_nil_of_left_ne_nil (hwaits hi) _
    refine ⟨rfl, h.agree.follows hnf hmf (input?_of_append hwaits h.pending), ?_, ?_, ?_, ?_⟩
    · rw [hnf.provider, hmf.provider, providerAfter_of_waits hwaits, providerAfter_of_waits hwaits',
        h.provider]
    · rw [hnf.pending, hmf.pending, hmf.policy]
      exact pendingAfter_of_append hwaits h.pending
    · rw [hnf.conditions, hmf.conditions, h.conditions,
        reported_of_waits hwaits h.agree.pc hwaits']
    · rw [hnf.clamped, hmf.clamped, hmf.policy, filter_reported_of_waits hwaits,
        filter_reported_of_waits hwaits', h.clamped, List.append_nil, List.append_nil]

/-! ### All schedules come to the same -/

/-- **A schedule does what queueing all input at first does.** The induction is on the turns, with
the machine that is ahead by the input still to come. -/
theorem play_spec {s : List Turn} {m n : Machine} (hm : m.Consistent) (hn : n.Consistent)
    (hs : m.neverAsks s = true) (h : n.AheadBy (s.filterMap Turn.queued?) m) :
    (m.play s).1 = n.results (s.count .step) ∧
      (n.after (s.count .step)).AheadBy [] (m.play s).2 := by
  induction s generalizing m n with
  | nil => exact ⟨rfl, h⟩
  | cons turn rest ih =>
    cases turn with
    | queue w => exact ih (hm.queue [w]) hn hs h.queue
    | step =>
      obtain ⟨hasks, hrest⟩ := (Bool.and_eq_true _ _).mp hs
      obtain ⟨hanswer, hnext⟩ := AheadBy.step h hm hn (by simpa using hasks)
      obtain ⟨hresults, hlast⟩ := ih hm.step hn.step hrest hnext
      rw [List.count_cons_self]
      refine ⟨?_, hlast⟩
      rw [results_succ, ← hanswer, ← hresults]
      rfl

/-- A step that does not ask leaves the provider alone. -/
theorem Consistent.provider_step {m : Machine} (hm : m.Consistent) (hasks : m.asks = false) :
    m.step.2.provider = m.provider := by
  cases (Agree.refl m).stepsAlike hm hm with
  | refuse hs => rw [hs]
  | fault hs =>
    rw [hs]
    rfl
  | carry hs _ hf _ hupcoming hmust =>
    rw [hs, hf.provider]
    exact providerAfter_of_waits (pending_ne_nil_of_asks hupcoming hmust hasks)

theorem provider_play {s : List Turn} {m : Machine} (hm : m.Consistent)
    (hs : m.neverAsks s = true) : (m.play s).2.provider = m.provider := by
  induction s generalizing m with
  | nil => rfl
  | cons turn rest ih =>
    cases turn with
    | queue w => exact ih (hm.queue [w]) hs
    | step =>
      obtain ⟨hasks, hrest⟩ := (Bool.and_eq_true _ _).mp hs
      exact (ih hm.step hrest).trans (hm.provider_step (by simpa using hasks))

/-- **When input is queued does not matter.** Two schedules that queue the same values in the same
order and take the same number of steps, from the same machine, answer the same and come to the same
machine, as long as no input instruction finds the queue empty in either of them. They need not
report words out of range at the same place among the diagnostics; but they report the same ones in
the same order, and the other diagnostics are the same too. The provider is never asked. -/
theorem Reachable.play_interleaved {m : Machine} (hm : m.Reachable) {s t : List Turn}
    (hqueued : s.filterMap Turn.queued? = t.filterMap Turn.queued?)
    (hsteps : s.count .step = t.count .step) (hs : m.neverAsks s = true)
    (ht : m.neverAsks t = true) :
    (m.play s).1 = (m.play t).1 ∧
      (m.play s).2.Agree (m.play t).2 ∧
      (m.play s).2.pending = (m.play t).2.pending ∧
      ((m.play s).2.provider = m.provider ∧ (m.play t).2.provider = m.provider) ∧
      (m.play s).2.conditions = (m.play t).2.conditions ∧
      (m.play s).2.clamped = (m.play t).2.clamped := by
  have hm := hm.consistent
  obtain ⟨hanswers, hahead⟩ := play_spec hm (hm.queue _) hs (aheadBy_queue m _)
  obtain ⟨hanswers', hahead'⟩ := play_spec hm (hm.queue _) ht (aheadBy_queue m _)
  rw [← hqueued, ← hsteps] at hanswers' hahead'
  refine ⟨hanswers.trans hanswers'.symm, hahead.agree.symm.trans hahead'.agree, ?_,
    ⟨provider_play hm hs, provider_play hm ht⟩, hahead.conditions.symm.trans hahead'.conditions, ?_⟩
  · simpa using hahead.pending.symm.trans hahead'.pending
  · simpa using hahead.clamped.symm.trans hahead'.clamped

/-- A value that is queued after the input instruction comes too late for it. -/
example :
    let m := (new .decimal).load [901]
    (m.play [.queue 5, .step]).2.acc = 5 ∧ (m.play [.step, .queue 5]).2.acc = 0 := by
  decide +kernel

/-- A word out of range that is queued before or after a word is passed over that is no instruction:
the reports change places, and nothing else is different. -/
theorem Reachable.play_around_unknown :
    let m := (new .bounded32).load [901, 413, 901, 902]
    let s : List Turn := [.queue 7, .step, .step, .queue 0x100000000, .step, .step]
    let t : List Turn := [.queue 7, .queue 0x100000000, .step, .step, .step, .step]
    (m.play s).1 = (m.play t).1 ∧ (m.play s).2.clamped = (m.play t).2.clamped ∧
      (m.play s).2.output = #[0x7FFFFFFF] ∧
      (m.play s).2.diagnostics ≠ (m.play t).2.diagnostics := by
  intro m s t
  have hm : m.Reachable := (reachable_new .bounded32).perform (.loadAt 0 [901, 413, 901, 902])
  obtain ⟨hanswers, -, -, -, -, hclamped⟩ :=
    Reachable.play_interleaved (s := s) (t := t) hm (by decide) (by decide) (by decide +kernel)
      (by decide +kernel)
  exact ⟨hanswers, hclamped, by decide +kernel, by decide +kernel⟩

end Machine

end LittleMan
