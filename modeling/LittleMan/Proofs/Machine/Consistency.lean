import LittleMan.Proofs.Machine.Reachable
import LittleMan.Proofs.Machine.Rules

/-!
# Consistent machines

What is true of a machine at any point of its life: its words are in range, its counter is at most
one past the last mailbox, and its state, its last instruction, its count of cycles and its
diagnostics tell the same story.

The clauses cannot be kept one by one. That the fatal diagnostic names mailbox 100 needs the bound
on the counter; that there is no second one needs to know that a machine which runs has not faulted;
that the counter moves as the rules say, and that words stay in range, needs the words to be in
range before. So they are one structure, and each move keeps it as a whole.

## Main definitions

* `Diagnostic.Sound` — a diagnostic says what can be true
* `Machine.Consistent` — the invariant

## Main results

* `Machine.kept_consistent` — the moves keep it
* `Machine.Reachable.consistent` — every reachable machine is consistent
* `Machine.Reachable.invariant` — what that says, in terms of what can be seen of a machine
-/

namespace LittleMan

/-! ### Words in range -/

namespace Policy

/-- What an exact result ought to become is in range. -/
theorem keeps_exact (p : Policy) (w : Int) : p.Keeps (p.exact w) := by
  cases p with
  | decimal =>
    have hlow : 0 ≤ w % 1000 := Int.emod_nonneg _ (by decide)
    have hhigh : w % 1000 < 1000 := Int.emod_lt_of_pos _ (by decide)
    simp only [Keeps, least, greatest, exact]
    omega
  | bounded32 => exact keeps_clamp _ _
  | bounded64 => exact keeps_clamp _ _

theorem keeps_of_mem_map_clamp {p : Policy} {ws : List Int} {w : Int} (h : w ∈ ws.map p.clamp) :
    p.Keeps w := by
  obtain ⟨v, -, rfl⟩ := List.mem_map.1 h
  exact p.keeps_clamp v

end Policy

/-! ### Sound diagnostics -/

namespace Diagnostic

/-- A diagnostic of a machine with policy `p` says what can be true: it names a mailbox, a word that
is no instruction, the one address past memory, or a word that is out of range. -/
def Sound (p : Policy) : Diagnostic → Prop
  | unknownInstruction pc raw => pc < 100 ∧ Instruction.decode raw = .unknown raw
  | inputStarved pc => pc < 100
  | pcOutOfBounds pc => pc = 100
  | valueClamped value clamped => clamped = p.clamp value ∧ clamped ≠ value

theorem sound_of_mem_clampings {p : Policy} {ws : List Int} {d : Diagnostic}
    (h : d ∈ clampings p ws) : d.Sound p := by
  obtain ⟨w, -, hne, rfl⟩ := mem_clampings.1 h
  exact ⟨rfl, hne⟩

end Diagnostic

namespace Machine

/-! ### The invariant -/

/-- The invariant of a machine. -/
structure Consistent (m : Machine) : Prop where
  /-- The accumulator and the mailboxes are in range. -/
  words : m.WordsKept
  /-- So is the input that waits. -/
  pending : ∀ w ∈ m.pending, m.policy.Keeps w
  /-- So is the output. -/
  output : ∀ w ∈ m.output.toList, m.policy.Keeps w
  /-- The counter is in memory or one past it. -/
  pc_le : m.pc ≤ 100
  /-- There is a fatal diagnostic if the machine has faulted, and only one. -/
  fatal : m.diagnostics.toList.filter Diagnostic.isFatal =
    if m.state = .faulted then [.pcOutOfBounds 100] else []
  /-- A faulted machine stands one past memory. -/
  pc_of_faulted : m.state = .faulted → m.pc = 100
  /-- The machine has halted if it carried out a halt last. -/
  halted_iff : m.state = .halted ↔ m.last = some .hlt
  /-- There is a last instruction once one was counted. -/
  last_iff : m.last = none ↔ m.cycles = 0
  /-- Every diagnostic says what can be true. -/
  sound : ∀ d ∈ m.diagnostics.toList, d.Sound m.policy

theorem consistent_reset (m : Machine) : m.reset.Consistent where
  words := ⟨m.policy.keeps_zero, fun a => (Memory.get_empty a).symm ▸ m.policy.keeps_zero⟩
  pending _ hw := absurd hw List.not_mem_nil
  output _ hw := absurd hw List.not_mem_nil
  pc_le := Nat.zero_le _
  fatal := rfl
  pc_of_faulted h := by cases h
  halted_iff := by simp [reset]
  last_iff := by simp [reset]
  sound _ hd := absurd hd List.not_mem_nil

/-- What admitting words from outside adds to the diagnostics is sound, and not fatal. -/
theorem Consistent.sound_append_clampings {m : Machine} (h : m.Consistent) (ws : List Int) :
    ∀ d ∈ (m.diagnostics ++ Diagnostic.clampings m.policy ws).toList, d.Sound m.policy := by
  intro d hd
  rw [Array.toList_appendList, List.mem_append] at hd
  rcases hd with hd | hd
  · exact h.sound d hd
  · exact Diagnostic.sound_of_mem_clampings hd

theorem Consistent.fatal_append_clampings {m : Machine} (h : m.Consistent) (ws : List Int) :
    (m.diagnostics ++ Diagnostic.clampings m.policy ws).toList.filter Diagnostic.isFatal =
      if m.state = .faulted then [.pcOutOfBounds 100] else [] := by
  rw [Diagnostic.filter_append_clampings fun _ _ => rfl, h.fatal]

/-- Words that come in through the policy are in range, whichever mailboxes they are put into. -/
theorem Consistent.loadAt {m : Machine} (h : m.Consistent) (start : Nat) (ws : List Int) :
    (m.loadAt start ws).Consistent where
  words := by
    refine ⟨h.words.acc, fun a => ?_⟩
    change m.policy.Keeps ((m.memory.load start (ws.map m.policy.clamp)).get a)
    rw [Memory.get_load]
    split
    · cases hw : (ws.map m.policy.clamp)[a - start]? with
      | none => exact h.words.cell a
      | some w => exact Policy.keeps_of_mem_map_clamp (List.mem_of_getElem? hw)
    · exact h.words.cell a
  pending := h.pending
  output := h.output
  pc_le := h.pc_le
  fatal := h.fatal_append_clampings ws
  pc_of_faulted := h.pc_of_faulted
  halted_iff := h.halted_iff
  last_iff := h.last_iff
  sound := h.sound_append_clampings ws

theorem Consistent.queue {m : Machine} (h : m.Consistent) (ws : List Int) :
    (m.queue ws).Consistent where
  words := ⟨h.words.acc, h.words.cell⟩
  pending := by
    intro w hw
    rw [pending_queue, List.mem_append] at hw
    rcases hw with hw | hw
    · exact h.pending w hw
    · exact Policy.keeps_of_mem_map_clamp hw
  output := by
    rw [output_queue]
    exact h.output
  pc_le := h.pc_le
  fatal := h.fatal_append_clampings ws
  pc_of_faulted := h.pc_of_faulted
  halted_iff := h.halted_iff
  last_iff := h.last_iff
  sound := h.sound_append_clampings ws

theorem Consistent.attach {m : Machine} (h : m.Consistent) (p : Provider) :
    (m.attach p).Consistent :=
  ⟨⟨h.words.acc, h.words.cell⟩, h.pending, h.output, h.pc_le, h.fatal, h.pc_of_faulted,
    h.halted_iff, h.last_iff, h.sound⟩

/-! ### Steps -/

/-- A machine whose counter left memory faults with its counter at 100: it cannot be further. -/
theorem Consistent.fault {m : Machine} (h : m.Consistent) (hm : m.state = .running)
    (hpc : 100 ≤ m.pc) : m.fault.Consistent := by
  have hpc : m.pc = 100 := Nat.le_antisymm h.pc_le hpc
  have hlast : ¬m.last = some .hlt := by
    rw [← h.halted_iff, hm]
    decide
  refine ⟨⟨h.words.acc, h.words.cell⟩, h.pending, h.output, h.pc_le, ?_, fun _ => hpc, ?_,
    h.last_iff, ?_⟩
  · have hnone := h.fatal
    rw [if_neg (by rw [hm]; decide)] at hnone
    change (m.diagnostics.push (.pcOutOfBounds m.pc)).toList.filter _ = _
    rw [Array.toList_push, List.filter_append, hnone, hpc]
    rfl
  · exact ⟨fun hs => (by cases hs), fun hs => absurd hs hlast⟩
  · intro d hd
    change d ∈ (m.diagnostics.push (.pcOutOfBounds m.pc)).toList at hd
    rw [Array.toList_push, List.mem_append, List.mem_singleton] at hd
    rcases hd with hd | rfl
    · exact h.sound d hd
    · exact hpc

/-- An input value is in range: it was clamped when it was queued, or is clamped now. -/
theorem Consistent.keeps_input {m : Machine} (h : m.Consistent) :
    m.policy.Keeps (m.input?.getD m.acc) := by
  unfold input?
  cases hq : m.pending with
  | cons w rest => exact h.pending w (hq ▸ List.mem_cons_self)
  | nil =>
    cases m.provider.ask.1 with
    | none => exact h.words.acc
    | some w => exact m.policy.keeps_clamp w

theorem Consistent.keeps_accAfter {m : Machine} (h : m.Consistent) (i : Instruction) :
    m.policy.Keeps (m.accAfter i) := by
  cases i with
  | add a => exact m.policy.keeps_exact _
  | sub a => exact m.policy.keeps_exact _
  | lda a => exact h.words.cell a
  | inp => exact h.keeps_input
  | _ => exact h.words.acc

theorem Consistent.keeps_cellAfter {m : Machine} (h : m.Consistent) (i : Instruction) (a : Nat) :
    m.policy.Keeps (m.cellAfter i a) := by
  cases i with
  | sta b =>
    simp only [cellAfter]
    split
    · exact h.words.acc
    · exact h.words.cell a
  | _ => exact h.words.cell a

/-- A branch leads to a mailbox, and any other instruction to the next address. -/
theorem pcAfter_le {m : Machine} (hpc : m.pc < 100) {i : Instruction}
    (hi : ∀ a, i.operand = some a → a < 100) : m.pcAfter i ≤ 100 := by
  cases i with
  | bra a => exact Nat.le_of_lt (hi a rfl)
  | brz a =>
    have := hi a rfl
    simp only [pcAfter]
    split <;> omega
  | brp a =>
    have := hi a rfl
    simp only [pcAfter]
    split <;> omega
  | _ => exact hpc

/-- What an instruction reports is sound, and not fatal. -/
theorem sound_reported {m : Machine} (hpc : m.pc < 100) {i : Instruction}
    (hi : Instruction.decode (m.memory.get m.pc) = i) :
    (∀ d ∈ m.reported i, d.Sound m.policy) ∧ (m.reported i).filter Diagnostic.isFatal = [] := by
  cases i with
  | inp =>
    simp only [reported]
    split
    · cases m.provider.ask.1 with
      | none =>
        refine ⟨fun d hd => ?_, rfl⟩
        rw [List.mem_singleton.1 hd]
        exact hpc
      | some w =>
        exact ⟨fun d hd => Diagnostic.sound_of_mem_clampings hd,
          Diagnostic.filter_clampings (fun _ _ => rfl) _ _⟩
    · exact ⟨fun d hd => absurd hd List.not_mem_nil, rfl⟩
  | unknown raw =>
    refine ⟨fun d hd => ?_, rfl⟩
    obtain rfl : m.memory.get m.pc = raw := by
      have := Instruction.encode_decode (m.memory.get m.pc)
      rw [hi] at this
      exact this.symm
    rw [List.mem_singleton.1 hd]
    exact ⟨hpc, hi⟩
  | _ => exact ⟨fun d hd => absurd hd List.not_mem_nil, rfl⟩

/-- No instruction faults a machine; only a counter outside memory does. -/
theorem stateAfter_ne (i : Instruction) : stateAfter i ≠ .faulted := by
  cases i <;> simp [stateAfter]

/-- A machine that follows the rules stays consistent. -/
theorem Consistent.follows {m next : Machine} (h : m.Consistent) (hm : m.state = .running)
    (hpc : m.pc < 100) {i : Instruction} (hi : Instruction.Reads (m.memory.get m.pc) i)
    (hn : m.Follows i next) : next.Consistent := by
  have hdecode := Instruction.reads_iff.1 hi
  have hoperand : ∀ a, i.operand = some a → a < 100 := fun a ha =>
    Instruction.operand_decode_lt (hdecode ▸ ha)
  have hreported := sound_reported hpc hdecode
  refine ⟨⟨?_, ?_⟩, ?_, ?_, ?_, ?_, ?_, ?_, ?_, ?_⟩
  · rw [hn.policy, hn.acc]
    exact h.keeps_accAfter i
  · intro a
    rw [hn.policy, hn.cell]
    exact h.keeps_cellAfter i a
  · rw [hn.policy, hn.pending]
    cases i with
    | inp => exact fun w hw => h.pending w (List.mem_of_mem_tail hw)
    | _ => exact h.pending
  · rw [hn.policy, hn.output]
    intro w hw
    rcases List.mem_append.1 hw with hw | hw
    · exact h.output w hw
    · cases i with
      | out =>
        rw [List.mem_singleton.1 hw]
        exact h.words.acc
      | _ => exact absurd hw List.not_mem_nil
  · rw [hn.pc]
    exact pcAfter_le hpc hoperand
  · have hnone := h.fatal
    rw [if_neg (by rw [hm]; decide)] at hnone
    rw [hn.diagnostics, List.filter_append, hnone, hreported.2, hn.state, if_neg (stateAfter_ne i)]
    rfl
  · exact fun hs => absurd (hn.state ▸ hs) (stateAfter_ne i)
  · rw [hn.state, hn.last]
    cases i <;> simp [stateAfter]
  · simp [hn.last, hn.cycles]
  · rw [hn.policy, hn.diagnostics]
    intro d hd
    rcases List.mem_append.1 hd with hd | hd
    · exact h.sound d hd
    · exact hreported.1 d hd

theorem Consistent.step {m : Machine} (h : m.Consistent) : m.step.2.Consistent := by
  by_cases hm : m.state = .running
  · by_cases hpc : m.pc < 100
    · obtain ⟨i, next, hi, hs, hn⟩ := step_follows h.words hm hpc
      rw [hs]
      exact h.follows hm hpc hi hn
    · rw [step_of_le_pc hm (by omega)]
      exact h.fault hm (by omega)
  · rw [step_of_ne_running hm]
    exact h

/-! ### Every reachable machine -/

/-- **The moves keep the invariant.** -/
theorem kept_consistent : Kept Consistent where
  reset m _ := consistent_reset m
  loadAt _ start ws h := h.loadAt start ws
  queue _ ws h := h.queue ws
  attach _ p h := h.attach p
  step _ h := h.step

theorem consistent_new (p : Policy) : (new p).Consistent :=
  consistent_reset (new p)

/-- Every reachable machine is consistent. -/
theorem Reachable.consistent {m : Machine} (h : m.Reachable) : m.Consistent :=
  h.induction kept_consistent consistent_new

/-! ### What can be seen of it -/

theorem Consistent.keeps_mailbox {m : Machine} (h : m.Consistent) {w : Int}
    (hw : w ∈ m.memory.toList) : m.policy.Keeps w := by
  obtain ⟨a, -, rfl⟩ := Memory.mem_toList.1 hw
  exact h.words.cell a

/-- A machine has faulted exactly if its diagnostics say so. -/
theorem Consistent.faulted_iff {m : Machine} (h : m.Consistent) :
    m.state = .faulted ↔ ∃ pc, .pcOutOfBounds pc ∈ m.diagnostics := by
  constructor
  · intro hs
    have hfatal := h.fatal
    rw [if_pos hs] at hfatal
    have hmem : .pcOutOfBounds 100 ∈ m.diagnostics.toList.filter Diagnostic.isFatal := by
      rw [hfatal]
      exact List.mem_singleton_self _
    exact ⟨100, Array.mem_toList_iff.1 (List.mem_filter.1 hmem).1⟩
  · rintro ⟨pc, hpc⟩
    refine Decidable.byContradiction fun hs => ?_
    have hfatal := h.fatal
    rw [if_neg hs, List.filter_eq_nil_iff] at hfatal
    exact hfatal _ (Array.mem_toList_iff.2 hpc) rfl

/-- **The invariant of reachable machines.** Whatever was done to a machine: there are 100
mailboxes; the accumulator, the mailboxes, the waiting input and the output hold words in range; the
counter is at most 100; the machine has faulted exactly if a diagnostic says that the counter left
memory, there is one such diagnostic then, and it names 100, where the counter is; it has halted
exactly if it carried out a halt last; it has no last instruction exactly if none was counted; and
the other diagnostics name mailboxes, words that are no instructions, and words that are out of
range. -/
theorem Reachable.invariant {m : Machine} (h : m.Reachable) :
    m.memory.toList.length = 100 ∧
      (m.policy.Keeps m.acc ∧ (∀ w ∈ m.memory.toList, m.policy.Keeps w) ∧
        (∀ w ∈ m.pending, m.policy.Keeps w) ∧ ∀ w ∈ m.output, m.policy.Keeps w) ∧
      m.pc ≤ 100 ∧
      (m.state = .faulted ↔ ∃ pc, .pcOutOfBounds pc ∈ m.diagnostics) ∧
      (m.state = .faulted →
        m.pc = 100 ∧ m.diagnostics.toList.filter Diagnostic.isFatal = [.pcOutOfBounds 100]) ∧
      (m.state = .halted ↔ m.last = some .hlt) ∧
      (m.last = none ↔ m.cycles = 0) ∧
      (∀ pc raw, .unknownInstruction pc raw ∈ m.diagnostics →
        pc < 100 ∧ Instruction.decode raw = .unknown raw) ∧
      (∀ pc, .inputStarved pc ∈ m.diagnostics → pc < 100) ∧
      ∀ value clamped, .valueClamped value clamped ∈ m.diagnostics →
        clamped = m.policy.clamp value ∧ clamped ≠ value := by
  have hm := h.consistent
  have hsound {d : Diagnostic} (hd : d ∈ m.diagnostics) : d.Sound m.policy :=
    hm.sound d (Array.mem_toList_iff.2 hd)
  refine ⟨Vector.length_toList, ⟨hm.words.acc, fun _ => hm.keeps_mailbox, hm.pending, ?_⟩, hm.pc_le,
    hm.faulted_iff, ?_, hm.halted_iff, hm.last_iff, fun _ _ => hsound, fun _ => hsound,
    fun _ _ => hsound⟩
  · exact fun w hw => hm.output w (Array.mem_toList_iff.2 hw)
  · intro hs
    have hfatal := hm.fatal
    rw [if_pos hs] at hfatal
    exact ⟨hm.pc_of_faulted hs, hfatal⟩

/-- The invariant of a machine that jumped to mailbox 97, starved there, passed over a word that is
no instruction, and ran out of memory. -/
theorem Reachable.invariant_of_fault :
    let loaded := ((new .decimal).loadAt 0 [697]).loadAt 97 [901, 413, 902]
    let m := loaded.step.2.step.2.step.2.step.2.step.2
    m.state = .faulted ∧ m.pc = 100 ∧
      m.diagnostics.toList.filter Diagnostic.isFatal = [.pcOutOfBounds 100] := by
  intro loaded m
  have hloaded : loaded.Reachable :=
    ((reachable_new .decimal).perform (.loadAt 0 [697])).perform (.loadAt 97 [901, 413, 902])
  have hm : m.Reachable := hloaded.step.step.step.step.step
  have hs : m.state = .faulted := by decide +kernel
  obtain ⟨-, -, -, -, hfault, -⟩ := Reachable.invariant hm
  exact ⟨hs, hfault hs⟩

end Machine

end LittleMan
