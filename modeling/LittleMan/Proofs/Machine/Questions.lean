import LittleMan.Proofs.FrontEnds
import LittleMan.Proofs.Machine.InputSource

/-!
# Questions to the provider

A provider is known by its answers. A machine with another provider that gives the same answers does
the same, and stays the same in everything but the provider: both of them have been asked the same
number of times, once for each input instruction that found the queue empty.

So the provider of a machine tells how many questions there were, and the one who asks the `j`-th of
them, counted from zero, gets the answer that comes after `j` others.

## Main definitions

* `Provider.AnswersLike` — two providers give the same answers
* `Machine.questions` — how often so many steps ask the provider
* `Machine.TakesAnswer` — what comes of an answer

## Main results

* `Machine.Consistent.after_attach` — a machine with a provider that answers alike
* `Machine.Consistent.provider_after` — the provider has been asked once for each question
* `Machine.Consistent.takesAnswer` — the `j`-th question gets the `j`-th answer
-/

namespace LittleMan

/-! ### Providers that answer alike -/

namespace Provider

/-- Two providers give the same answers, now and after any number of questions. -/
def AnswersLike (p q : Provider) : Prop :=
  ∀ n, (p.afterAsking n).ask.1 = (q.afterAsking n).ask.1

theorem AnswersLike.afterAsking {p q : Provider} (h : p.AnswersLike q) (k : Nat) :
    (p.afterAsking k).AnswersLike (q.afterAsking k) := by
  intro n
  rw [← afterAsking_add, ← afterAsking_add]
  exact h (k + n)

theorem Gives.answersLike {p q : Provider} {ws : List Int} (hp : p.Gives ws) (hq : q.Gives ws) :
    p.AnswersLike q :=
  fun n => (hp n).trans (hq n).symm

end Provider

namespace Machine

/-! ### How often is asked -/

/-- How often `n` steps ask the provider. -/
def questions (m : Machine) (n : Nat) : Nat :=
  (m.course n).countP mustAsk

theorem questions_one_of_ok {m next : Machine} {i : Instruction} (h : m.step = (.ok i, next)) :
    m.questions 1 = if m.mustAsk then 1 else 0 := by
  rw [questions, course_succ_of_ok h, course, List.countP_singleton]

theorem questions_of_error {m next : Machine} {e : StepError} (h : m.step = (.error e, next))
    (n : Nat) : m.questions n = 0 := by
  rw [questions, course_of_error h, List.countP_nil]

/-- The first step asks at most once, and the others ask as the machine after it does. -/
theorem questions_succ (m : Machine) (n : Nat) :
    m.questions (n + 1) = m.questions 1 + m.step.2.questions n := by
  rcases hs : m.step with ⟨e | i, next⟩
  · have hnext : next.state ≠ .running := fun h => by
      simpa [isRunning_iff.2 h] using (stuck_of_step hs).2
    rw [questions_of_error hs, questions_of_error hs, questions_of_error (step_of_ne_running hnext)]
  · rw [questions_one_of_ok hs, questions, course_succ_of_ok hs, List.countP_cons, Nat.add_comm]
    rfl

/-- A step moves the provider on by its questions. -/
theorem Consistent.provider_next {m : Machine} (hm : m.Consistent) :
    m.step.2.provider = m.provider.afterAsking (m.questions 1) := by
  rcases hs : m.step with ⟨e | i, next⟩
  · rw [questions_of_error hs]
    rcases eq_or_eq_fault_of_step hs with rfl | rfl <;> rfl
  · obtain ⟨rfl, hn, -⟩ := hm.follows_step hs
    rw [questions_one_of_ok hs]
    exact hn.provider_eq

/-- **The provider has been asked once for each question**, and not for anything else. -/
theorem Consistent.provider_after {m : Machine} (hm : m.Consistent) (n : Nat) :
    (m.after n).provider = m.provider.afterAsking (m.questions n) := by
  induction n generalizing m with
  | zero => rfl
  | succ n ih =>
    rw [after_succ, ih hm.step, hm.provider_next, ← Provider.afterAsking_add, ← questions_succ]

/-! ### Another provider -/

@[simp] theorem policy_attach (m : Machine) (q : Provider) : (m.attach q).policy = m.policy := rfl

@[simp] theorem pc_attach (m : Machine) (q : Provider) : (m.attach q).pc = m.pc := rfl

@[simp] theorem pending_attach (m : Machine) (q : Provider) :
    (m.attach q).pending = m.pending := rfl

@[simp] theorem provider_attach (m : Machine) (q : Provider) : (m.attach q).provider = q := rfl

/-- An instruction that gets the same answer does the same. -/
theorem Follows.attach {m next next' : Machine} {i : Instruction} {q : Provider}
    (h : m.Follows i next) (h' : (m.attach q).Follows i next')
    (hask : q.ask.1 = m.provider.ask.1) : next' = next.attach next'.provider := by
  have hinput : (m.attach q).input? = m.input? := by
    simp only [input?, policy_attach, pending_attach, provider_attach, hask]
  have hacc : (m.attach q).accAfter i = m.accAfter i := by
    cases i with
    | inp => exact congrArg (Option.getD · m.acc) hinput
    | _ => rfl
  have hreported : (m.attach q).reported i = m.reported i := by
    cases i with
    | inp =>
      simp only [reported, policy_attach, pc_attach, pending_attach, provider_attach, hask]
    | _ => rfl
  exact ext_parts (h'.policy.trans h.policy.symm) ((h'.acc.trans hacc).trans h.acc.symm)
    (h'.pc.trans h.pc.symm) (fun a => (h'.cell a).trans (h.cell a).symm)
    (h'.state.trans h.state.symm) (h'.pending.trans h.pending.symm)
    (h'.output.trans h.output.symm) rfl
    ((h'.diagnostics.trans (congrArg _ hreported)).trans h.diagnostics.symm)
    (h'.cycles.trans h.cycles.symm) (h'.last.trans h.last.symm)

/-- A step with another provider that gives the same answer. -/
theorem Consistent.step_attach {m : Machine} (hm : m.Consistent) {q : Provider}
    (hask : q.ask.1 = m.provider.ask.1) :
    (m.attach q).step = (m.step.1, m.step.2.attach (q.afterAsking (m.questions 1))) := by
  have hagree : m.Agree (m.attach q) := ⟨rfl, rfl, rfl, rfl, rfl, rfl, rfl, rfl⟩
  cases hagree.stepsAlike hm (hm.attach q) with
  | refuse hs hs' =>
    rw [hs', questions_of_error hs, hs]
    rfl
  | fault hs hs' =>
    rw [hs', questions_of_error hs, hs]
    rfl
  | @carry i next next' hs hs' hf hf' hupcoming hasks =>
    have hprovider : next'.provider = q.afterAsking (m.questions 1) := by
      rw [questions_one_of_ok hs]
      subst hupcoming
      exact hf'.provider_eq
    rw [hs', hs, ← hprovider, ← hf.attach hf' hask]

/-- **A machine with a provider that answers alike** does the same, and is the same after any number
of steps, but for the provider. -/
theorem Consistent.after_attach {m : Machine} (hm : m.Consistent) {q : Provider}
    (hq : q.AnswersLike m.provider) (n : Nat) :
    (m.attach q).results n = m.results n ∧
      (m.attach q).after n = (m.after n).attach (q.afterAsking (m.questions n)) := by
  induction n generalizing m q with
  | zero => exact ⟨rfl, rfl⟩
  | succ n ih =>
    have hask : q.ask.1 = m.provider.ask.1 := hq 0
    have hnext : (q.afterAsking (m.questions 1)).AnswersLike m.step.2.provider := by
      rw [hm.provider_next]
      exact hq.afterAsking _
    obtain ⟨hresults, hafter⟩ := ih hm.step hnext
    rw [results_succ, results_succ, after_succ, after_succ, hm.step_attach hask, hresults,
      hafter, ← Provider.afterAsking_add, ← questions_succ]
    exact ⟨rfl, rfl⟩

/-! ### The answers -/

/-- What comes of an answer: a value goes into the accumulator, clamped, and a clamping is reported;
if there is none, that is reported, and the accumulator stays. -/
def TakesAnswer (m : Machine) (answer : Option Int) (next : Machine) : Prop :=
  match answer with
  | some w =>
    next.acc = m.policy.clamp w ∧
      next.diagnostics.toList = m.diagnostics.toList ++ Diagnostic.clampings m.policy [w]
  | none =>
    next.acc = m.acc ∧ next.diagnostics.toList = m.diagnostics.toList ++ [.inputStarved m.pc]

/-- Who asks takes the answer. -/
theorem Follows.takesAnswer {m next : Machine} (h : m.Follows m.upcoming next)
    (hask : m.mustAsk = true) : m.TakesAnswer m.provider.ask.1 next := by
  obtain ⟨hinp, hempty⟩ := of_decide_eq_true hask
  rw [hinp] at h
  cases h.takesInput with
  | queue hpending =>
    rw [hempty] at hpending
    cases hpending
  | answer _ hanswer hacc _ _ hdiagnostics =>
    rw [hanswer]
    exact ⟨hacc, hdiagnostics⟩
  | nothing _ hanswer hacc _ _ hdiagnostics =>
    rw [hanswer]
    exact ⟨hacc, hdiagnostics⟩

/-- The `j`-th of those that ask finds the provider after `j` questions. -/
theorem Passes.provider_of_getElem? {m after before : Machine} {ms : List Machine} {j : Nat}
    (h : m.Passes ms after) (hm : m.Consistent) (hj : (ms.filter mustAsk)[j]? = some before) :
    before.provider = m.provider.afterAsking j := by
  induction h generalizing j with
  | nil m => simp at hj
  | @cons m next after i ms hs h ih =>
    obtain ⟨rfl, hn, hnext⟩ := hm.follows_step hs
    have hprovider := hn.provider_eq
    by_cases hask : m.mustAsk = true
    · rw [List.filter_cons_of_pos hask] at hj
      rw [if_pos hask] at hprovider
      cases j with
      | zero =>
        cases hj
        rfl
      | succ j => rw [ih hnext hj, hprovider, ← Provider.afterAsking_add, Nat.add_comm]
    · rw [List.filter_cons_of_neg hask] at hj
      rw [if_neg hask] at hprovider
      rw [ih hnext hj, hprovider]
      rfl

/-- The machines at which steps carry out instructions come one after the other. -/
theorem exists_passes_course (m : Machine) (n : Nat) : ∃ after, m.Passes (m.course n) after := by
  obtain ⟨after, hpasses, -⟩ := exists_passes_runUntil (m.cycles + n) m
  rw [Nat.add_sub_cancel_left] at hpasses
  exact ⟨after, hpasses⟩

/-- Every machine of a course carries out its instruction by the rules. -/
theorem Consistent.follows_of_mem_course {m before : Machine} (hm : m.Consistent) {n : Nat}
    (hbefore : before ∈ m.course n) : before.Follows before.upcoming before.step.2 := by
  obtain ⟨after, hpasses⟩ := m.exists_passes_course n
  exact (hpasses.follows_of_mem hm hbefore).2

/-- Who does not ask leaves the provider alone. -/
theorem Consistent.provider_of_mem_course {m before : Machine} (hm : m.Consistent) {n : Nat}
    (hbefore : before ∈ m.course n) (hask : before.mustAsk = false) :
    before.step.2.provider = before.provider := by
  rw [(hm.follows_of_mem_course hbefore).provider_eq, hask]
  rfl

/-- **The `j`-th question gets the `j`-th answer.** -/
theorem Consistent.takesAnswer {m before : Machine} (hm : m.Consistent) {n j : Nat}
    (hj : ((m.course n).filter mustAsk)[j]? = some before) :
    before.provider = m.provider.afterAsking j ∧
      before.step.2.provider = m.provider.afterAsking (j + 1) ∧
      before.TakesAnswer (m.provider.afterAsking j).ask.1 before.step.2 := by
  obtain ⟨after, hpasses⟩ := m.exists_passes_course n
  obtain ⟨hmem, hask⟩ := List.mem_filter.1 (List.mem_of_getElem? hj)
  have hn := hm.follows_of_mem_course hmem
  have hprovider := hpasses.provider_of_getElem? hm hj
  refine ⟨hprovider, ?_, ?_⟩
  · rw [hn.provider_eq, if_pos hask, hprovider, ← Provider.afterAsking_add]
  · rw [← hprovider]
    exact hn.takesAnswer hask

end Machine

end LittleMan
