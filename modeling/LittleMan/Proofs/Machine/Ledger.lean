import LittleMan.Proofs.Machine.Runs

/-!
# Accounts of input and output

Nothing that goes into a machine or comes out of it is lost, doubled or put out of order. Between
two resets a history of calls carries out instructions, and the machines that it passes through on
the way tell what each instruction took and gave. Put together they account for the queue, the
output, the starved inputs, the questions to the provider and the count of cycles.

Loading, queueing and attaching a provider can come between any two instructions, and a run can
carry out any number of them. So the account is kept for a piece of a history (`Accounts`): pieces
add up, and an instruction and a call are pieces.

## Main definitions

* `Machine.course`, `Machine.courseOf`, `Machine.executed` — the machines at which a run, a call and
  a history carry out an instruction
* `Machine.dequeued`, `Machine.answered`, `Machine.starved` — what an instruction takes
* `Machine.TakesInput` — the three ways of an input instruction
* `Machine.Accounts` — the account of a piece of a history

## Main results

* `Machine.accounts_call`, `Machine.accounts_history` — calls and histories keep the account
* `Machine.provider_call` — a call asks the provider for its input instructions, and otherwise not
* `Machine.history_accounted` — the account of a history from a reset on
-/

namespace LittleMan

/-! ### What is put in -/

namespace Call

/-- A call that goes on with the machine: any but a reset and the loading of a sample. -/
def Continues : Call → Prop
  | operation .reset => False
  | operation (.prepare _ _) => False
  | _ => True

/-- The input that a call queues, before it is clamped. -/
def queued : Call → List Int
  | operation (.queue ws) => ws
  | _ => []

/-- The provider that a call attaches. -/
def attached? : Call → Option Provider
  | operation (.attach p) => some p
  | _ => none

end Call

/-- The provider after `n` questions. -/
def Provider.afterAsking : Provider → Nat → Provider
  | p, 0 => p
  | p, n + 1 => p.ask.2.afterAsking n

theorem Provider.afterAsking_add (p : Provider) (a b : Nat) :
    p.afterAsking (a + b) = (p.afterAsking a).afterAsking b := by
  induction a generalizing p with
  | zero => rw [Nat.zero_add, afterAsking]
  | succ a ih => rw [Nat.succ_add, Provider.afterAsking, ih, afterAsking]

/-- What a provider has come to that counts its questions. -/
theorem Provider.afterAsking_of_counts {p : Nat → Provider} (h : ∀ k, (p k).ask.2 = p (k + 1))
    (asked n : Nat) : (p asked).afterAsking n = p (asked + n) := by
  induction n generalizing asked with
  | zero => rfl
  | succ n ih => rw [afterAsking, h, ih, Nat.add_assoc, Nat.add_comm 1]

/-- An oracle counts the questions. -/
theorem Provider.afterAsking_oracle (answers : Nat → Option Int) (asked n : Nat) :
    (oracle answers asked).afterAsking n = oracle answers (asked + n) :=
  afterAsking_of_counts (fun _ => rfl) asked n

/-- Whether a diagnostic is about an input instruction that found nothing to read. -/
def Diagnostic.isStarved : Diagnostic → Bool
  | inputStarved _ => true
  | _ => false

namespace Machine

/-! ### What is carried out -/

/-- The instruction at the program counter. -/
def upcoming (m : Machine) : Instruction :=
  .decode (m.memory.get m.pc)

/-- The machines at which up to `n` steps carry out an instruction, in order. -/
def course : Machine → Nat → List Machine
  | _, 0 => []
  | m, n + 1 =>
    match m.step with
    | (.ok _, next) => m :: next.course n
    | (.error _, _) => []

/-- The machines at which a call carries out an instruction, in order. -/
noncomputable def courseOf (m : Machine) : Call → List Machine
  | .operation .step => m.course 1
  | .operation (.runLimited limit) => m.course (min (m.cycles + limit) cyclesEnd - m.cycles)
  | .operation _ => []
  | .run => m.course m.lifetime.toNat

/-- The machines at which a history carries out an instruction, in order. -/
noncomputable def executed : Machine → List Call → List Machine
  | _, [] => []
  | m, c :: rest =>
    match m.call c with
    | some (_, next) => m.courseOf c ++ next.executed rest
    | none => []

/-- What the instruction at the counter takes from the queue. -/
def dequeued (m : Machine) : List Int :=
  if m.upcoming = .inp then m.pending.take 1 else []

/-- Whether the instruction at the counter asks the provider: it is an input instruction, and
nothing waits in the queue. -/
def mustAsk (m : Machine) : Bool :=
  m.upcoming = .inp ∧ m.pending = []

/-- The answer that the instruction at the counter gets from the provider. -/
def answered (m : Machine) : List Int :=
  if m.mustAsk then m.provider.ask.1.toList else []

/-- The report that the instruction at the counter finds nothing to read. -/
def starved (m : Machine) : List Diagnostic :=
  if m.mustAsk ∧ m.provider.ask.1 = none then [.inputStarved m.pc] else []

/-- The three ways of an input instruction: `m.TakesInput after` says how `after` comes of `m`. -/
inductive TakesInput (m after : Machine) : Prop
  /-- A value waits. The provider is not asked. -/
  | queue {w : Int} {rest : List Int} (hpending : m.pending = w :: rest) (hacc : after.acc = w)
      (hrest : after.pending = rest) (hprovider : after.provider = m.provider)
      (hdiagnostics : after.diagnostics.toList = m.diagnostics.toList)
  /-- Nothing waits, and the provider answers the one question that it is asked. -/
  | answer {w : Int} (hpending : m.pending = []) (hask : m.provider.ask.1 = some w)
      (hacc : after.acc = m.policy.clamp w) (hrest : after.pending = [])
      (hprovider : after.provider = m.provider.ask.2)
      (hdiagnostics : after.diagnostics.toList =
        m.diagnostics.toList ++ Diagnostic.clampings m.policy [w])
  /-- Nothing waits, and the provider has nothing to say to the one question that it is asked. -/
  | nothing (hpending : m.pending = []) (hask : m.provider.ask.1 = none) (hacc : after.acc = m.acc)
      (hrest : after.pending = []) (hprovider : after.provider = m.provider.ask.2)
      (hdiagnostics : after.diagnostics.toList = m.diagnostics.toList ++ [.inputStarved m.pc])

/-- An input instruction that follows the rules goes one of the three ways. -/
theorem Follows.takesInput {m next : Machine} (h : m.Follows .inp next) : m.TakesInput next := by
  have hacc := h.acc
  have hrest := h.pending
  have hprovider := h.provider
  have hdiagnostics := h.diagnostics
  simp only [accAfter, input?, pendingAfter, providerAfter, reported] at *
  cases hpending : m.pending with
  | cons w rest =>
    rw [hpending] at hacc hrest hprovider hdiagnostics
    exact .queue hpending hacc hrest (by simpa using hprovider) (by simpa using hdiagnostics)
  | nil =>
    rw [hpending] at hacc hrest
    rw [if_pos hpending] at hprovider hdiagnostics
    cases hask : m.provider.ask.1 with
    | some w =>
      rw [hask] at hacc hdiagnostics
      exact .answer hpending hask hacc hrest hprovider hdiagnostics
    | none =>
      rw [hask] at hacc hdiagnostics
      exact .nothing hpending hask hacc hrest hprovider hdiagnostics

/-- An instruction takes one value or reports that there is none if it is an input instruction, and
does nothing of the kind otherwise. -/
theorem length_taken (m : Machine) :
    m.dequeued.length + m.answered.length + m.starved.length =
      if m.upcoming = .inp then 1 else 0 := by
  unfold dequeued answered starved mustAsk
  by_cases hi : m.upcoming = .inp
  · by_cases hpending : m.pending = []
    · cases hask : m.provider.ask.1 <;> simp [hi, hpending]
    · obtain ⟨w, rest, hcons⟩ := List.exists_cons_of_ne_nil hpending
      simp [hi, hcons]
  · simp [hi]

/-- The input instructions of a course, by the ways they went. -/
theorem countP_upcoming_inp (ms : List Machine) :
    ms.countP (·.upcoming = .inp) =
      (ms.flatMap dequeued).length + (ms.flatMap answered).length +
        (ms.flatMap starved).length := by
  induction ms with
  | nil => rfl
  | cons m rest ih =>
    have := length_taken m
    simp only [List.countP_cons, List.flatMap_cons, List.length_append, decide_eq_true_eq]
    omega

/-! ### The way of a machine -/

/-- `m.Passes ms after` says that `m` comes to `after` by carrying out instructions at the machines
`ms`, of which `m` is the first. -/
inductive Passes : Machine → List Machine → Machine → Prop
  | nil (m : Machine) : Passes m [] m
  | cons {m next after : Machine} {i : Instruction} {ms : List Machine}
      (hs : m.step = (.ok i, next)) (h : Passes next ms after) : Passes m (m :: ms) after

/-- What a consistent machine does when it carries out an instruction. -/
theorem Consistent.follows_step {m next : Machine} {i : Instruction} (hm : m.Consistent)
    (hs : m.step = (.ok i, next)) : m.upcoming = i ∧ m.Follows i next ∧ next.Consistent := by
  obtain ⟨hi, hn⟩ := follows_of_step hm.words hs
  have hnext := hm.step
  rw [hs] at hnext
  exact ⟨hi, hn, hnext⟩

theorem course_succ_of_ok {m next : Machine} {i : Instruction} (h : m.step = (.ok i, next))
    (n : Nat) : m.course (n + 1) = m :: next.course n := by
  rw [course, h]

theorem course_of_error {m next : Machine} {e : StepError} (h : m.step = (.error e, next))
    (n : Nat) : m.course n = [] := by
  cases n with
  | zero => rfl
  | succ n => rw [course, h]

theorem passes_of_steps? {m after : Machine} {n : Nat} (h : m.steps? n = some after) :
    m.Passes (m.course n) after := by
  induction n generalizing m with
  | zero =>
    cases h
    exact .nil after
  | succ n ih =>
    obtain ⟨i, next, hs, hn⟩ := steps?_succ_eq_some.1 h
    rw [course_succ_of_ok hs]
    exact .cons hs (ih hn)

theorem exists_passes_step (m : Machine) :
    ∃ after, m.Passes (m.course 1) after ∧ (m.step.2 = after ∨ m.step.2 = after.fault) := by
  rcases hs : m.step with ⟨e | i, next⟩
  · rw [course_of_error hs]
    exact ⟨m, .nil m, eq_or_eq_fault_of_step hs⟩
  · rw [course_succ_of_ok hs]
    exact ⟨next, .cons hs (.nil next), .inl rfl⟩

/-- The course of a limited run, by induction on its rounds. -/
theorem exists_passes_runUntil (limit : Nat) (m : Machine) :
    ∃ after, m.Passes (m.course (limit - m.cycles)) after ∧
      ((runUntil limit m).2 = after ∨ (runUntil limit m).2 = after.fault) := by
  fun_induction runUntil limit m with
  | case1 m hm i next hs ih =>
    obtain ⟨after, hpasses, hend⟩ := ih
    have hleft : limit - m.cycles = limit - next.cycles + 1 := by
      have := cycles_step hs
      omega
    rw [hleft, course_succ_of_ok hs]
    exact ⟨after, .cons hs hpasses, hend⟩
  | case2 m hm e next hs =>
    rw [course_of_error hs]
    exact ⟨m, .nil m, eq_or_eq_fault_of_step hs⟩
  | case3 m hstop =>
    refine ⟨m, ?_, .inl rfl⟩
    by_cases hm : m.isRunning = true
    · have hlimit : limit ≤ m.cycles := Nat.le_of_not_lt fun hc => hstop ⟨hm, hc⟩
      rw [Nat.sub_eq_zero_of_le hlimit]
      exact .nil m
    · rw [course_of_error (step_of_ne_running fun hr => hm (isRunning_iff.2 hr))]
      exact .nil m

theorem exists_passes_run {m next : Machine} {result : Except StepError Nat}
    (h : m.run = some (result, next)) :
    ∃ after, m.Passes (m.course m.lifetime.toNat) after ∧ (next = after ∨ next = after.fault) := by
  obtain ⟨e, hr, -⟩ := run_eq_some.1 h
  obtain ⟨k, after, hafter, hstuck, hclosing⟩ := runOn_eq_some_iff.1 hr
  have hlife : m.lifetime.toNat = k := by
    rw [lifetime_eq_natCast_iff.2 ⟨after, hafter, hstuck⟩, ENat.toNat_natCast]
  rw [hlife]
  refine ⟨after, passes_of_steps? hafter, ?_⟩
  obtain rfl : next = after.closing.2 := congrArg Prod.snd hclosing
  unfold closing
  split
  · exact .inr rfl
  · exact .inl rfl

/-- What a call does that goes on with the machine: it loads, queues or attaches a provider, or it
carries out instructions and perhaps faults. -/
theorem call_cases {m next : Machine} {c : Call} {answer : Answer} (hc : c.Continues)
    (h : m.call c = some (answer, next)) :
    (∃ start ws, c = .operation (.loadAt start ws) ∧ next = m.loadAt start ws) ∨
    (∃ ws, c = .operation (.queue ws) ∧ next = m.queue ws) ∨
    (∃ p, c = .operation (.attach p) ∧ next = m.attach p) ∨
    (c.queued = [] ∧ c.attached? = none ∧
      ∃ after, m.Passes (m.courseOf c) after ∧ (next = after ∨ next = after.fault)) := by
  cases c with
  | operation o =>
    obtain rfl : (o.perform m).2 = next := congrArg Prod.snd (call_operation_eq_some.1 h)
    cases o with
    | loadAt start ws => exact .inl ⟨start, ws, rfl, rfl⟩
    | queue ws => exact .inr (.inl ⟨ws, rfl, rfl⟩)
    | attach p => exact .inr (.inr (.inl ⟨p, rfl, rfl⟩))
    | reset => exact hc.elim
    | prepare s inputs => exact hc.elim
    | step => exact .inr (.inr (.inr ⟨rfl, rfl, exists_passes_step m⟩))
    | runLimited limit =>
      refine .inr (.inr (.inr ⟨rfl, rfl, ?_⟩))
      change ∃ after, _ ∧ ((m.runLimited limit).2 = after ∨ (m.runLimited limit).2 = after.fault)
      rw [runLimited, tally_snd]
      exact exists_passes_runUntil _ m
  | run =>
    obtain ⟨result, hrun, -⟩ := call_run_eq_some.1 h
    exact .inr (.inr (.inr ⟨rfl, rfl, exists_passes_run hrun⟩))

/-! ### The account -/

/-- The account of a piece of a history that leads from `m` to `next`, in which `queued` was queued
and instructions were carried out at the machines `ms`. -/
structure Accounts (m : Machine) (queued : List Int) (ms : List Machine) (next : Machine) :
    Prop where
  policy : next.policy = m.policy
  /-- What was taken from the queue, and then what waits, is what waited, and then what came in. -/
  pending : ms.flatMap dequeued ++ next.pending = m.pending ++ queued.map m.policy.clamp
  output : next.output.toList = m.output.toList ++ (ms.filter (·.upcoming = .out)).map acc
  starved : next.diagnostics.toList.filter Diagnostic.isStarved =
    m.diagnostics.toList.filter Diagnostic.isStarved ++ ms.flatMap starved
  cycles : next.cycles = m.cycles + ms.length

theorem Accounts.refl (m : Machine) : m.Accounts [] [] m where
  policy := rfl
  pending := by simp
  output := by simp
  starved := by simp
  cycles := rfl

/-- **Pieces of a history add up.** -/
theorem Accounts.trans {m₀ m₁ m₂ : Machine} {queued₁ queued₂ : List Int} {ms₁ ms₂ : List Machine}
    (h₁ : m₀.Accounts queued₁ ms₁ m₁) (h₂ : m₁.Accounts queued₂ ms₂ m₂) :
    m₀.Accounts (queued₁ ++ queued₂) (ms₁ ++ ms₂) m₂ where
  policy := h₂.policy.trans h₁.policy
  pending := by
    calc (ms₁ ++ ms₂).flatMap dequeued ++ m₂.pending
        = ms₁.flatMap dequeued ++ (ms₂.flatMap dequeued ++ m₂.pending) := by
          rw [List.flatMap_append, List.append_assoc]
      _ = ms₁.flatMap dequeued ++ m₁.pending ++ queued₂.map m₀.policy.clamp := by
          rw [h₂.pending, h₁.policy, List.append_assoc]
      _ = m₀.pending ++ (queued₁ ++ queued₂).map m₀.policy.clamp := by
          rw [h₁.pending, List.map_append, List.append_assoc]
  output := by
    rw [h₂.output, h₁.output, List.filter_append, List.map_append, List.append_assoc]
  starved := by
    rw [h₂.starved, h₁.starved, List.flatMap_append, List.append_assoc]
  cycles := by
    rw [h₂.cycles, h₁.cycles, List.length_append, Nat.add_assoc]

/-- A fault is none of the account's business. -/
theorem Accounts.fault {m after : Machine} {queued : List Int} {ms : List Machine}
    (h : m.Accounts queued ms after) : m.Accounts queued ms after.fault where
  policy := h.policy
  pending := h.pending
  output := h.output
  starved := by
    change (after.diagnostics.push (.pcOutOfBounds after.pc)).toList.filter _ = _
    rw [Array.toList_push, List.filter_append, h.starved]
    exact List.append_nil _
  cycles := h.cycles

theorem accounts_loadAt (m : Machine) (start : Nat) (ws : List Int) :
    m.Accounts [] [] (m.loadAt start ws) where
  policy := rfl
  pending := (List.append_nil m.pending).symm
  output := (List.append_nil m.output.toList).symm
  starved := by
    change (m.diagnostics ++ Diagnostic.clampings m.policy ws).toList.filter _ = _
    rw [Diagnostic.filter_append_clampings fun _ _ => rfl, List.flatMap_nil, List.append_nil]
  cycles := rfl

theorem accounts_queue (m : Machine) (ws : List Int) : m.Accounts ws [] (m.queue ws) where
  policy := rfl
  pending := m.pending_queue ws
  output := by
    rw [output_queue]
    exact (List.append_nil m.output.toList).symm
  starved := by
    change (m.diagnostics ++ Diagnostic.clampings m.policy ws).toList.filter _ = _
    rw [Diagnostic.filter_append_clampings fun _ _ => rfl, List.flatMap_nil, List.append_nil]
  cycles := rfl

theorem accounts_attach (m : Machine) (p : Provider) : m.Accounts [] [] (m.attach p) :=
  have h := Accounts.refl m
  ⟨rfl, h.pending, h.output, h.starved, rfl⟩

/-- What an instruction reports about starving. -/
theorem filter_reported (m : Machine) :
    (m.reported m.upcoming).filter Diagnostic.isStarved = m.starved := by
  unfold starved mustAsk
  cases hi : m.upcoming with
  | inp =>
    simp only [reported, true_and]
    by_cases hpending : m.pending = []
    · cases hask : m.provider.ask.1 with
      | none =>
        simp only [hpending, if_true]
        rfl
      | some w =>
        have hclampings :
            (Diagnostic.clampings m.policy [w]).filter Diagnostic.isStarved = [] :=
          Diagnostic.filter_clampings (fun _ _ => rfl) _ _
        simp [hpending, hclampings]
    · simp [hpending]
  | _ => rfl

/-- The account of one instruction. -/
theorem Follows.accounts {m next : Machine} (h : m.Follows m.upcoming next) :
    m.Accounts [] [m] next where
  policy := h.policy
  pending := by
    rw [h.pending, List.flatMap_singleton, dequeued]
    cases hi : m.upcoming with
    | inp => cases hpending : m.pending <;> simp [pendingAfter, hpending]
    | _ => simp [pendingAfter]
  output := by
    rw [h.output]
    cases hi : m.upcoming <;> simp [emitted, hi]
  starved := by
    rw [h.diagnostics, List.filter_append, filter_reported, List.flatMap_singleton]
  cycles := h.cycles

theorem Passes.accounts {m after : Machine} {ms : List Machine} (h : m.Passes ms after)
    (hm : m.Consistent) : m.Accounts [] ms after := by
  induction h with
  | nil m => exact .refl m
  | cons hs h ih =>
    obtain ⟨rfl, hn, hnext⟩ := hm.follows_step hs
    exact Accounts.trans (Follows.accounts hn) (ih hnext)

/-- **A call keeps the account.** -/
theorem accounts_call {m next : Machine} {c : Call} {answer : Answer} (hm : m.Consistent)
    (hc : c.Continues) (h : m.call c = some (answer, next)) :
    m.Accounts c.queued (m.courseOf c) next := by
  obtain ⟨start, ws, rfl, rfl⟩ | ⟨ws, rfl, rfl⟩ | ⟨p, rfl, rfl⟩ | ⟨hq, -, after, hpasses, hend⟩ :=
    call_cases hc h
  · exact accounts_loadAt m start ws
  · exact accounts_queue m ws
  · exact accounts_attach m p
  · have hafter := hpasses.accounts hm
    rw [hq]
    rcases hend with rfl | rfl
    · exact hafter
    · exact hafter.fault

/-- **A history keeps the account.** The induction is on the calls. -/
theorem accounts_history {m last : Machine} {calls : List Call} {answers : List Answer}
    (hm : m.Consistent) (hcalls : ∀ c ∈ calls, c.Continues)
    (h : m.history calls = some (answers, last)) :
    m.Accounts (calls.flatMap Call.queued) (m.executed calls) last := by
  induction calls generalizing m answers with
  | nil =>
    cases h
    exact .refl last
  | cons c rest ih =>
    obtain ⟨answer, next, later, hc, hrest, rfl⟩ := history_cons_eq_some.1 h
    have hfirst := accounts_call hm (hcalls c List.mem_cons_self) hc
    have hnext : next.Consistent := kept_consistent.call hm hc
    have hlater := ih hnext (fun d hd => hcalls d (List.mem_cons_of_mem c hd)) hrest
    rw [executed, hc, List.flatMap_cons]
    exact hfirst.trans hlater

/-! ### The provider -/

/-- An instruction asks once, or not at all. -/
theorem Follows.provider_eq {m next : Machine} (h : m.Follows m.upcoming next) :
    next.provider = m.provider.afterAsking (if m.mustAsk then 1 else 0) := by
  rw [h.provider]
  unfold mustAsk
  cases hi : m.upcoming with
  | inp =>
    by_cases hpending : m.pending = [] <;>
      simp [providerAfter, Provider.afterAsking, hpending]
  | _ => rfl

theorem Passes.provider_eq {m after : Machine} {ms : List Machine} (h : m.Passes ms after)
    (hm : m.Consistent) :
    after.provider = m.provider.afterAsking (ms.countP mustAsk) := by
  induction h with
  | nil m => rfl
  | cons hs h ih =>
    obtain ⟨rfl, hn, hnext⟩ := hm.follows_step hs
    rw [ih hnext, Follows.provider_eq hn, ← Provider.afterAsking_add, List.countP_cons,
      Nat.add_comm]

/-- **A call asks the provider for its input instructions**, and for nothing else. -/
theorem provider_call {m next : Machine} {c : Call} {answer : Answer} (hm : m.Consistent)
    (hc : c.Continues) (h : m.call c = some (answer, next)) :
    next.provider =
      (c.attached?.getD m.provider).afterAsking ((m.courseOf c).countP mustAsk) := by
  obtain ⟨start, ws, rfl, rfl⟩ | ⟨ws, rfl, rfl⟩ | ⟨p, rfl, rfl⟩ | ⟨-, ha, after, hpasses, hend⟩ :=
    call_cases hc h
  · rfl
  · rfl
  · rfl
  · have hafter := hpasses.provider_eq hm
    rw [ha, Option.getD_none]
    rcases hend with rfl | rfl
    · exact hafter
    · exact hafter

/-! ### The instructions of a history -/

theorem Passes.follows_of_mem {m after before : Machine} {ms : List Machine} (h : m.Passes ms after)
    (hm : m.Consistent) (hbefore : before ∈ ms) :
    before.step.1 = .ok before.upcoming ∧ before.Follows before.upcoming before.step.2 := by
  induction h with
  | nil m => cases hbefore
  | cons hs h ih =>
    obtain ⟨rfl, hn, hnext⟩ := hm.follows_step hs
    rcases List.mem_cons.1 hbefore with rfl | hbefore
    · rw [hs]
      exact ⟨rfl, hn⟩
    · exact ih hnext hbefore

theorem follows_of_mem_courseOf {m next before : Machine} {c : Call} {answer : Answer}
    (hm : m.Consistent) (hc : c.Continues) (h : m.call c = some (answer, next))
    (hbefore : before ∈ m.courseOf c) :
    before.step.1 = .ok before.upcoming ∧ before.Follows before.upcoming before.step.2 := by
  obtain ⟨start, ws, rfl, rfl⟩ | ⟨ws, rfl, rfl⟩ | ⟨p, rfl, rfl⟩ | ⟨-, -, after, hpasses, -⟩ :=
    call_cases hc h
  · cases hbefore
  · cases hbefore
  · cases hbefore
  · exact hpasses.follows_of_mem hm hbefore

/-- Every instruction that a history carries out follows the rules. -/
theorem follows_of_mem_executed {m last before : Machine} {calls : List Call}
    {answers : List Answer} (hm : m.Consistent) (hcalls : ∀ c ∈ calls, c.Continues)
    (h : m.history calls = some (answers, last)) (hbefore : before ∈ m.executed calls) :
    before.step.1 = .ok before.upcoming ∧ before.Follows before.upcoming before.step.2 := by
  induction calls generalizing m answers with
  | nil => cases hbefore
  | cons c rest ih =>
    obtain ⟨answer, next, later, hc, hrest, rfl⟩ := history_cons_eq_some.1 h
    rw [executed, hc] at hbefore
    rcases List.mem_append.1 hbefore with hbefore | hbefore
    · exact follows_of_mem_courseOf hm (hcalls c List.mem_cons_self) hc hbefore
    · have hnext : next.Consistent := kept_consistent.call hm hc
      exact ih hnext (fun d hd => hcalls d (List.mem_cons_of_mem c hd)) hrest hbefore

/-! ### From a reset on -/

/-- **No input or output is lost, doubled or put out of order.** After any calls from a reset on,
what the input instructions took from the queue, and then what waits, is what was queued, clamped
and in order. Every input instruction went one of the three ways, and no other asked the provider;
nor does any further call, apart from its input instructions. The input instructions add up. The
output is what the accumulator held at the output instructions, and the cycles count the
instructions. -/
theorem history_accounted {m₀ m : Machine} {calls : List Call} {answers : List Answer}
    (hcalls : ∀ c ∈ calls, c.Continues) (h : m₀.reset.history calls = some (answers, m)) :
    let executed := m₀.reset.executed calls
    executed.flatMap dequeued ++ m.pending =
        (calls.flatMap Call.queued).map m₀.policy.clamp ∧
      (∀ before ∈ executed, before.step.1 = .ok before.upcoming ∧
        (before.upcoming = .inp → before.TakesInput before.step.2) ∧
        (before.upcoming ≠ .inp → before.step.2.provider = before.provider)) ∧
      (∀ c answer next, c.Continues → m.call c = some (answer, next) →
        next.provider =
          (c.attached?.getD m.provider).afterAsking ((m.courseOf c).countP mustAsk)) ∧
      executed.countP (·.upcoming = .inp) =
        (executed.flatMap dequeued).length + (executed.flatMap answered).length +
          m.diagnostics.toList.countP Diagnostic.isStarved ∧
      m.output.toList = (executed.filter (·.upcoming = .out)).map acc ∧
      m.cycles = executed.length := by
  intro executed
  have hm₀ := consistent_reset m₀
  have haccounts := accounts_history hm₀ hcalls h
  have hm : m.Consistent := kept_consistent.history hm₀ h
  have hstarved : m.diagnostics.toList.filter Diagnostic.isStarved = executed.flatMap starved :=
    haccounts.starved
  refine ⟨haccounts.pending, fun before hbefore => ?_, fun c answer next => provider_call hm, ?_,
    haccounts.output, ?_⟩
  · obtain ⟨hs, hn⟩ := follows_of_mem_executed hm₀ hcalls h hbefore
    refine ⟨hs, fun hi => ?_, fun hi => ?_⟩
    · rw [hi] at hn
      exact hn.takesInput
    · have hno : before.mustAsk = false := decide_eq_false fun hask => hi hask.1
      rw [Follows.provider_eq hn, hno]
      rfl
  · rw [countP_upcoming_inp, List.countP_eq_length_filter, hstarved]
  · rw [haccounts.cycles]
    exact Nat.zero_add _

/-- A machine that gets one value from the queue, one from the provider, and then none. -/
theorem history_accounted_of_three_inputs :
    let os : List Operation :=
      [.attach (.oracle (fun n => if n = 0 then some 0x100000000 else none) 0),
        .loadAt 0 [901, 902, 901, 901], .queue [0x200000000], .step, .step, .step, .step]
    let executed := (new .bounded32).executed (os.map .operation)
    executed.length = 4 ∧ executed.flatMap dequeued = [0x7FFFFFFF] ∧
      executed.countP (·.upcoming = .inp) = 1 + (executed.flatMap answered).length + 1 := by
  intro os executed
  have hcalls : ∀ c ∈ os.map Call.operation, c.Continues := by
    intro c hc
    obtain ⟨o, ho, rfl⟩ := List.mem_map.1 hc
    simp only [os, List.mem_cons, List.not_mem_nil, or_false] at ho
    rcases ho with rfl | rfl | rfl | rfl | rfl | rfl | rfl <;> trivial
  obtain ⟨answers, h⟩ := exists_history_operations os (new .bounded32)
  obtain ⟨hqueue, -, -, hcount, -, hcycles⟩ := @history_accounted (new .bounded32) _ _ _ hcalls h
  generalize hm : os.foldl (fun m o => (o.perform m).2) (new .bounded32) = m at *
  have hpending : m.pending = [] := by
    rw [← hm]
    decide +kernel
  have hstarved : m.diagnostics.toList.countP Diagnostic.isStarved = 1 := by
    rw [← hm]
    decide +kernel
  have hfour : m.cycles = 4 := by
    rw [← hm]
    decide +kernel
  rw [hpending, List.append_nil] at hqueue
  rw [hqueue, hstarved] at hcount
  exact ⟨hcycles.symm.trans hfour, hqueue, hcount⟩

end Machine

end LittleMan
