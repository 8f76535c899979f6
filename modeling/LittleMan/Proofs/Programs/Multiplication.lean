import LittleMan.Proofs.Programs.Loop

/-!
# Multiplying

The sample for multiplication reads two words, and adds up the first one as often as the second one,
its counter, can be taken down. What it puts out is the product of the two words, brought into range
once, although it is brought into range after each addition.

Under the decimal policy any counter comes to zero, so the sample is right for any two words. It
need not make as many rounds as the counter says then, but it makes a number of them with the same
residue. Under the other policies the sample is described for a counter that is not negative.

## Main definitions

* `Sample.multiplicationCode` — the program of the sample

## Main results

* `Sample.completes_multiplicationCode` — the program, for a counter that comes to zero
* `Sample.multiplication_yields` — what the sample comes to
-/

namespace LittleMan

namespace Sample

/-- The program that multiplies: two words are read and the sum is set to zero, then there is the
loop, and then the sum is put out. -/
def multiplicationCode : List Instruction :=
  [.inp, .sta 90, .inp, .sta 91, .lda 94, .sta 92] ++ Desk.addLoop 6 91 90 92 15 ++
    [.lda 92, .out, .hlt]

theorem multiplicationCode_in_layout :
    multiplicationCode <+: multiplication.layout.toList.map Instruction.decode := by
  decide +kernel

theorem hasAddLoop_multiplicationCode : Desk.HasAddLoop multiplicationCode 6 91 90 92 15 := by
  constructor <;> decide

variable {p : Policy} {cell : Nat → Int}

/-- The program comes to its loop with both words in their mailboxes and a sum of zero. -/
theorem follow_multiplicationCode_start (hzero : cell 94 = 0) (hone : cell 95 = 1) (a n : Int)
    (rest : List Int) :
    ∃ d, Desk.follow multiplicationCode p 6 ⟨0, 0, cell, a :: n :: rest, []⟩ = some d ∧
      d.pc = 6 ∧ d.cell 90 = a ∧ d.cell 91 = n ∧ d.cell 92 = 0 ∧ d.cell 95 = 1 ∧
      d.pending = rest ∧ d.output = [] :=
  ⟨_, rfl, rfl, rfl, rfl, hzero, hone, rfl, rfl⟩

/-- After its loop the program puts out the sum. -/
theorem follow_multiplicationCode_stop {d : Desk} (hpc : d.pc = 15) :
    Desk.follow multiplicationCode p 2 d = some
      { d with acc := d.cell 92, pc := 17, output := d.output ++ [d.cell 92] } := by
  obtain ⟨acc, pc, cell, pending, output⟩ := d
  cases hpc
  rfl

/-- **The program**, for a counter that is taken down to zero in `k` rounds. -/
theorem completes_multiplicationCode {a n : Int} {k : Nat} (hzero : cell 94 = 0)
    (hone : cell 95 = 1) (hk : p.CountsDown n k) (rest : List Int) :
    Desk.Completes multiplicationCode p cell (a :: n :: rest) (9 * k + 10) [p.exact (k * a)]
      rest := by
  obtain ⟨d, hstart, hpc, rfl, rfl, hsum, hone, rfl, houtput⟩ :=
    follow_multiplicationCode_start (p := p) hzero hone a n rest
  obtain ⟨d', hloop, hpc', hsum'⟩ :=
    Desk.follow_addLoop hasAddLoop_multiplicationCode hpc hk hone hsum
  have hstop := follow_multiplicationCode_stop (p := p) hpc'
  have hwhole := Desk.follow_trans hstart (Desk.follow_trans hloop.follow hstop)
  rw [show 6 + (9 * k + 2 + 2) = 9 * k + 10 by omega] at hwhole
  refine ⟨_, hwhole, rfl, ?_, hloop.pending⟩
  rw [hloop.output, houtput, hsum', List.nil_append]

/-- The sample on any machine, for a counter that is taken down to zero in `k` rounds. -/
theorem yields_multiplication {m : Machine} {a n : Int} {k : Nat}
    (hk : m.policy.CountsDown (m.policy.clamp n) k) (rest : List Int) :
    (multiplication.prepare (a :: n :: rest) m).Yields (9 * k + 11)
      [m.policy.exact (k * m.policy.clamp a)] (rest.map m.policy.clamp)
      (Diagnostic.clampings m.policy (a :: n :: rest)) :=
  yields (portable_of_mem (by decide)) multiplicationCode_in_layout _
    (completes_multiplicationCode (by decide +kernel) (by decide +kernel) hk _)

/-- **What the sample for multiplication comes to**, on any machine, for a first word `a` and a
second word `n` with any input after them. Let both words be clamped, as they are when they are
queued. Under the decimal policy the sample puts out the residue of their product, whatever their
signs are; under the other policies, for a second word that is not negative, their product clamped.
In both cases it halts after nine instructions for each round and eleven more. The input after the
two words still waits then, and what was reported is what queueing reports. -/
theorem multiplication_yields (m : Machine) (a n : Int) (rest : List Int) :
    let A := m.policy.clamp a
    let N := m.policy.clamp n
    let pending := rest.map m.policy.clamp
    let reports := Diagnostic.clampings m.policy (a :: n :: rest)
    (m.policy = .decimal →
      let k := if N = 0 then 0 else 1 + ((N - 1) % 1000).toNat
      (multiplication.prepare (a :: n :: rest) m).Yields (9 * k + 11) [A * N % 1000] pending
        reports) ∧
    (m.policy ≠ .decimal → 0 ≤ N →
      (multiplication.prepare (a :: n :: rest) m).Yields (9 * N.toNat + 11)
        [m.policy.clamp (A * N)] pending reports) := by
  intro A N pending reports
  constructor
  · intro hp k
    have hk : m.policy.CountsDown N k := hp ▸ Policy.countsDown_decimal N
    have hproduct : m.policy.exact (k * A) = A * N % 1000 := by
      have hresidue : (k : Int) % 1000 = N % 1000 := Policy.CountsDown.emod_eq (hp ▸ hk)
      rw [hp, Policy.exact_decimal, mul_comm A N]
      exact Int.ModEq.mul_right A hresidue
    exact hproduct ▸ yields_multiplication hk rest
  · intro hp hN
    have hkeeps : m.policy.Keeps N := m.policy.keeps_clamp n
    have hk : m.policy.CountsDown N N.toNat := Policy.countsDown_of_ne_decimal hp hN hkeeps
    have hproduct : m.policy.exact (N.toNat * A) = m.policy.clamp (A * N) := by
      rw [Int.toNat_of_nonneg hN, Policy.exact_of_ne_decimal hp, mul_comm]
    exact hproduct ▸ yields_multiplication hk rest

/-- Minus three is not in the way of the decimal policy: it is taken down to zero in 997 rounds.
Under the policy with 32 bits the product is cut off at the least word. -/
theorem multiplication_yields_of_signs :
    (multiplication.prepare [7, -3, 5] (Machine.new .decimal)).Yields 8984 [979] [5] [] ∧
    (multiplication.prepare [-0x10000000000, 3] (Machine.new .bounded32)).Yields 38 [-0x80000000] []
      [.valueClamped (-0x10000000000) (-0x80000000)] :=
  ⟨(multiplication_yields (Machine.new .decimal) 7 (-3) [5]).1 rfl,
    (multiplication_yields (Machine.new .bounded32) (-0x10000000000) 3 []).2 (by decide)
      (by decide)⟩

end Sample

end LittleMan
