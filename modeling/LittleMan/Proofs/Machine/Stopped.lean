import LittleMan.Proofs.Machine.Ledger

/-!
# Stopped machines

A machine that halted or faulted stays so until it is reset. It can still be worked on: words are
loaded, input is queued and providers are attached as ever, and all of that is there afterwards. But
nothing that is done to it makes it carry out an instruction. So its registers, its output and its
count of cycles are final, and no provider is asked any more.

What becomes of a stopped machine under a list of calls is one structure. It is shown for a single
call, one kind after the other, and two lists of calls put their effects together.

## Main definitions

* `Call.admitted`, `Call.Covers` — the words that a call lets in, and the mailboxes it loads
* `Call.refusal` — what a stopped machine answers
* `Machine.Rests` — what becomes of a stopped machine

## Main results

* `Machine.call_of_stopped`, `Machine.history_of_stopped` — one call and any number of them
* `Machine.stays_stopped` — a stopped machine stays stopped
-/

namespace LittleMan

namespace Call

/-- The words that a call lets in from outside, before they are clamped. -/
def admitted : Call → List Int
  | operation (.loadAt _ ws) => ws
  | operation (.queue ws) => ws
  | _ => []

/-- Whether a call loads a word into mailbox `a`, if there is such a mailbox. -/
def Covers (a : Nat) : Call → Prop
  | operation (.loadAt start ws) => start ≤ a ∧ a < start + ws.length
  | _ => False

/-- What a machine that stopped in the state `s` answers to a call. -/
def refusal (s : State) : Call → Answer
  | operation (.loadAt start ws) => .written (Memory.fitting start ws.length)
  | operation .step => .stepped (.error (.notRunning s))
  | operation (.runLimited _) => .ran (.ok 0)
  | run => .ran (.ok 0)
  | _ => .done

end Call

namespace Machine

variable {m : Machine}

/-! ### What becomes of a stopped machine -/

/-- What becomes of a stopped machine under some calls: `m.Rests calls next` says that `next` is `m`
but for what the calls loaded, queued and attached. -/
structure Rests (m : Machine) (calls : List Call) (next : Machine) : Prop where
  policy : next.policy = m.policy
  registers : next.registers = m.registers
  state : next.state = m.state
  cycles : next.cycles = m.cycles
  last : next.last = m.last
  output : next.output = m.output
  /-- The provider is the one that was attached last, as it was attached. -/
  provider : next.provider = (calls.filterMap Call.attached?).getLast?.getD m.provider
  pending : next.pending = m.pending ++ (calls.flatMap Call.queued).map m.policy.clamp
  diagnostics : next.diagnostics.toList =
    m.diagnostics.toList ++ Diagnostic.clampings m.policy (calls.flatMap Call.admitted)
  cell : ∀ a, (∀ c ∈ calls, ¬c.Covers a) → next.memory.get a = m.memory.get a

/-- Calls that let nothing in leave the machine alone. -/
theorem rests_self (m : Machine) {calls : List Call} (hqueued : calls.flatMap Call.queued = [])
    (hadmitted : calls.flatMap Call.admitted = [])
    (hattached : calls.filterMap Call.attached? = []) : m.Rests calls m where
  policy := rfl
  registers := rfl
  state := rfl
  cycles := rfl
  last := rfl
  output := rfl
  provider := by rw [hattached, List.getLast?_nil, Option.getD_none]
  pending := by rw [hqueued, List.map_nil, List.append_nil]
  diagnostics := by rw [hadmitted, Diagnostic.clampings_nil, List.append_nil]
  cell _ _ := rfl

/-- **Effects add up.** What becomes of a machine under two lists of calls, one after the other. -/
theorem Rests.trans {m₀ m₁ m₂ : Machine} {xs ys : List Call} (h₁ : m₀.Rests xs m₁)
    (h₂ : m₁.Rests ys m₂) : m₀.Rests (xs ++ ys) m₂ where
  policy := h₂.policy.trans h₁.policy
  registers := h₂.registers.trans h₁.registers
  state := h₂.state.trans h₁.state
  cycles := h₂.cycles.trans h₁.cycles
  last := h₂.last.trans h₁.last
  output := h₂.output.trans h₁.output
  provider := by
    rw [h₂.provider, h₁.provider, List.filterMap_append, List.getLast?_append, Option.getD_or]
  pending := by
    rw [h₂.pending, h₁.pending, h₁.policy, List.flatMap_append, List.map_append,
      List.append_assoc]
  diagnostics := by
    rw [h₂.diagnostics, h₁.diagnostics, h₁.policy, List.flatMap_append,
      Diagnostic.clampings_append, List.append_assoc]
  cell a ha := by
    rw [h₂.cell a fun c hc => ha c (List.mem_append_right xs hc),
      h₁.cell a fun c hc => ha c (List.mem_append_left ys hc)]

theorem rests_loadAt (m : Machine) (start : Nat) (ws : List Int) :
    m.Rests [.operation (.loadAt start ws)] (m.loadAt start ws) where
  policy := rfl
  registers := rfl
  state := rfl
  cycles := rfl
  last := rfl
  output := rfl
  provider := rfl
  pending := (List.append_nil m.pending).symm
  diagnostics := by
    rw [List.flatMap_singleton]
    exact Array.toList_appendList
  cell a ha := by
    have hcovers : ¬(start ≤ a ∧ a < start + ws.length) := ha _ (List.mem_singleton_self _)
    show (m.memory.load start (ws.map m.policy.clamp)).get a = _
    rw [Memory.get_load]
    split
    · next hstart =>
      -- the mailbox lies behind the last word that was loaded
      have hlength : (ws.map m.policy.clamp).length ≤ a - start := by
        rw [List.length_map]
        omega
      rw [List.getElem?_eq_none hlength, Option.getD_none]
    · rfl

theorem rests_queue (m : Machine) (ws : List Int) :
    m.Rests [.operation (.queue ws)] (m.queue ws) where
  policy := rfl
  registers := rfl
  state := rfl
  cycles := rfl
  last := rfl
  output := m.output_queue ws
  provider := rfl
  pending := by
    rw [List.flatMap_singleton]
    exact m.pending_queue ws
  diagnostics := by
    rw [List.flatMap_singleton]
    exact Array.toList_appendList
  cell _ _ := rfl

theorem rests_attach (m : Machine) (p : Provider) :
    m.Rests [.operation (.attach p)] (m.attach p) where
  policy := rfl
  registers := rfl
  state := rfl
  cycles := rfl
  last := rfl
  output := rfl
  provider := rfl
  pending := (List.append_nil m.pending).symm
  diagnostics := (List.append_nil m.diagnostics.toList).symm
  cell _ _ := rfl

/-! ### Calls -/

/-- **One call of a stopped machine.** Whatever it is, it comes back with a refusal if it asks for
instructions to be carried out, and the machine rests. -/
theorem call_of_stopped (hm : m.state ≠ .running) {c : Call} (hc : c.Continues) :
    ∃ next, m.call c = some (c.refusal m.state, next) ∧ m.Rests [c] next := by
  have hstop : m.isRunning = false := decide_eq_false hm
  match c with
  | .operation (.loadAt start ws) => exact ⟨_, rfl, m.rests_loadAt start ws⟩
  | .operation (.queue ws) => exact ⟨_, rfl, m.rests_queue ws⟩
  | .operation (.attach p) => exact ⟨_, rfl, m.rests_attach p⟩
  | .operation .reset => exact hc.elim
  | .operation (.prepare s inputs) => exact hc.elim
  | .operation .step =>
    refine ⟨m, ?_, m.rests_self rfl rfl rfl⟩
    rw [call_operation_eq_some, Operation.perform, step_of_ne_running hm]
    rfl
  | .operation (.runLimited limit) =>
    refine ⟨m, ?_, m.rests_self rfl rfl rfl⟩
    rw [call_operation_eq_some, Operation.perform, runLimited_of_stop hstop]
    rfl
  | .run =>
    refine ⟨m, ?_, m.rests_self rfl rfl rfl⟩
    have hrun : m.run = some (.ok 0, m) := by
      rw [run, runOn_of_stop hstop, Option.map_some, tally, Nat.sub_self]
    exact call_run_eq_some.2 ⟨.ok 0, hrun, rfl⟩

/-- A stopped machine carries out no instruction. -/
theorem courseOf_of_stopped (hm : m.state ≠ .running) (c : Call) : m.courseOf c = [] := by
  have hcourse (n : Nat) : m.course n = [] := course_of_error (step_of_ne_running hm) n
  unfold courseOf
  split
  · exact hcourse _
  · exact hcourse _
  · rfl
  · exact hcourse _

/-- **Any number of calls of a stopped machine**, none of which starts over. The induction is on the
calls: after each of them the machine is stopped in the same state. -/
theorem history_of_stopped (hm : m.state ≠ .running) {calls : List Call}
    (hcalls : ∀ c ∈ calls, c.Continues) :
    ∃ last, m.history calls = some (calls.map (Call.refusal m.state), last) ∧
      m.Rests calls last ∧ m.executed calls = [] := by
  induction calls generalizing m with
  | nil => exact ⟨m, rfl, m.rests_self rfl rfl rfl, rfl⟩
  | cons c rest ih =>
    obtain ⟨hc, hrest⟩ := List.forall_mem_cons.1 hcalls
    obtain ⟨next, hcall, hnext⟩ := call_of_stopped hm hc
    obtain ⟨last, hhistory, hlast, hexecuted⟩ := ih (hnext.state ▸ hm) hrest
    rw [hnext.state] at hhistory
    refine ⟨last, ?_, hnext.trans hlast, ?_⟩
    · exact history_cons_eq_some.2 ⟨_, next, _, hcall, hhistory, rfl⟩
    · rw [executed, hcall, courseOf_of_stopped hm]
      exact hexecuted

/-- **A stopped machine stays stopped.** Take a machine that halted or faulted, and make any calls
with any arguments, except that none of them starts over. All of them come back. A step is refused
with the state in which the machine stopped, a run carries out nothing, and no instruction is
carried out at all: accumulator, counter, state, count of cycles, last instruction and output are
what they were. No provider is asked; the one that was attached last is there as it was attached.
Clamped input is put behind the input that waits, the reports of clamping are put behind the
diagnostics, and only the mailboxes that a load covers can change. A reset sets the machine going
again. -/
theorem stays_stopped (hm : m.state ≠ .running) {calls : List Call}
    (hcalls : ∀ c ∈ calls, c.Continues) :
    ∃ last, m.history calls = some (calls.map (Call.refusal m.state), last) ∧
      (last.acc = m.acc ∧ last.pc = m.pc ∧ last.state = m.state ∧ last.cycles = m.cycles ∧
        last.last = m.last ∧ last.output = m.output) ∧
      m.executed calls = [] ∧
      last.provider = (calls.filterMap Call.attached?).getLast?.getD m.provider ∧
      last.pending = m.pending ++ (calls.flatMap Call.queued).map m.policy.clamp ∧
      last.diagnostics.toList =
        m.diagnostics.toList ++ Diagnostic.clampings m.policy (calls.flatMap Call.admitted) ∧
      (∀ a, (∀ c ∈ calls, ¬c.Covers a) → last.memory.get a = m.memory.get a) ∧
      last.reset.state = .running ∧ last.reset.pc = 0 := by
  obtain ⟨last, hhistory, h, hexecuted⟩ := history_of_stopped hm hcalls
  exact ⟨last, hhistory,
    ⟨congrArg Registers.acc h.registers, congrArg Registers.pc h.registers, h.state, h.cycles,
      h.last, h.output⟩,
    hexecuted, h.provider, h.pending, h.diagnostics, h.cell, rfl, rfl⟩

/-- A machine that halted at once, with a provider that counts its questions. Among other calls
there are a load that reaches beyond memory, and a word that is out of range. -/
theorem stays_stopped_of_halt :
    let source := Provider.oracle (fun n => some n) 4
    let m := ((new .bounded32).attach source).step.2
    let calls : List Call :=
      [.operation .step, .operation (.loadAt 98 [901, 5, 6]), .run,
        .operation (.queue [7, 0x100000000]), .operation (.runLimited 9)]
    m.state = .halted ∧ ∃ last,
      m.history calls = some
        ([.stepped (.error (.notRunning .halted)), .written 2, .ran (.ok 0), .done, .ran (.ok 0)],
          last) ∧
      last.pc = 1 ∧ last.state = .halted ∧ last.cycles = 1 ∧ last.provider = source ∧
      last.pending = [7, 0x7FFFFFFF] ∧
      last.diagnostics.toList = [.valueClamped 0x100000000 0x7FFFFFFF] ∧
      ∀ a < 98, last.memory.get a = 0 := by
  intro source m calls
  have hm : m.state = .halted := by decide +kernel
  have hcalls : ∀ c ∈ calls, c.Continues := by
    intro c hc
    simp only [calls, List.mem_cons, List.not_mem_nil, or_false] at hc
    rcases hc with rfl | rfl | rfl | rfl | rfl <;> trivial
  have hstop : m.state ≠ .running := by
    rw [hm]
    decide
  obtain ⟨last, hhistory, ⟨-, hpc, hstate, hcycles, -, -⟩, -, hprovider, hpending, hdiagnostics,
    hcell, -, -⟩ := stays_stopped hstop hcalls
  rw [hm] at hhistory hstate
  refine ⟨hm, last, hhistory, hpc, hstate, hcycles, hprovider, hpending, hdiagnostics, ?_⟩
  intro a ha
  have hmemory : m.memory = Memory.empty := by decide +kernel
  rw [hcell a, hmemory, Memory.get_empty]
  intro c hc
  simp only [calls, List.mem_cons, List.not_mem_nil, or_false] at hc
  rcases hc with rfl | rfl | rfl | rfl | rfl <;> simp only [Call.Covers, not_false_eq_true]
  omega

end Machine

end LittleMan
