import LittleMan.Proofs.Programs.Loop

/-!
# Factorials

The sample for factorials multiplies, beginning with one, by its counter until that is zero. To
multiply it has the loop that adds, within its own loop: the additions are counted by a copy of the
counter. So with `k` rounds to come it multiplies by `k`, whatever word the counter holds, and comes
to the factorial of the number of its rounds.

A product that was cut off stays cut off, since all that is done to it is to multiply it by natural
numbers; so what is put out is the factorial itself, brought into range once.

## Main definitions

* `Sample.factorialCode` — the program of the sample
* `Sample.FactorsLeft` — the invariant of its loop

## Main results

* `Sample.completes_factorialCode` — the program, for a counter that comes to zero
* `Sample.factorial_yields` — what the sample comes to
-/

namespace LittleMan

namespace Sample

/-- The program for factorials. Its loop is at mailbox 4, the one that multiplies at mailbox 9. -/
def factorialCode : List Instruction :=
  [.inp, .sta 90, .lda 95, .sta 91, .lda 90, .brz 24, .sta 93, .lda 94, .sta 92] ++
    Desk.addLoop 9 93 91 92 18 ++
    [.lda 92, .sta 91, .lda 90, .sub 95, .sta 90, .bra 4, .lda 91, .out, .hlt]

theorem factorialCode_in_layout :
    factorialCode <+: factorial.layout.toList.map Instruction.decode := by
  decide +kernel

theorem hasAddLoop_factorialCode : Desk.HasAddLoop factorialCode 9 93 91 92 18 := by
  constructor <;> decide

variable {p : Policy} {cell : Nat → Int} {rest : List Int} {total k : Nat}

/-! ### One round -/

/-- Where the program is with `k` factors to come, out of `total`. -/
structure FactorsLeft (p : Policy) (rest : List Int) (total k : Nat) (d : Desk) : Prop where
  /-- The product so far lacks the factors to come. -/
  product : ∃ w : Nat, d.cell 91 = p.exact w ∧ w * k.factorial = total.factorial
  zero : d.cell 94 = 0
  one : d.cell 95 = 1
  pending : d.pending = rest
  output : d.output = []

/-- To multiply by the counter, the counter is copied and the sum set to zero. -/
theorem stretch_factorialCode_enter (d : Desk) :
    ∃ d', Desk.Stretch factorialCode p 3 [93, 92] { d with acc := d.cell 90, pc := 6 } d' ∧
      d'.pc = 9 ∧ d'.cell 93 = d.cell 90 ∧ d'.cell 92 = d.cell 94 := by
  refine ⟨_, ⟨rfl, fun a ha => ?_, rfl, rfl⟩, rfl, rfl, rfl⟩
  have hne : a ≠ 93 ∧ a ≠ 92 := by simpa using ha
  exact (Function.update_of_ne hne.2 ..).trans (Function.update_of_ne hne.1 ..)

/-- Then the sum takes the place of the product so far, and the counter goes down. -/
theorem stretch_factorialCode_leave {d : Desk} (hpc : d.pc = 18) :
    ∃ d', Desk.Stretch factorialCode p 6 [91, 90] d d' ∧ d'.pc = 4 ∧
      d'.cell 90 = p.exact (d.cell 90 - d.cell 95) ∧ d'.cell 91 = d.cell 92 := by
  obtain ⟨acc, pc, cell, pending, output⟩ := d
  cases hpc
  refine ⟨_, ⟨rfl, fun a ha => ?_, rfl, rfl⟩, rfl, rfl, rfl⟩
  have hne : a ≠ 91 ∧ a ≠ 90 := by simpa using ha
  exact (Function.update_of_ne hne.2 ..).trans (Function.update_of_ne hne.1 ..)

/-- The number of instructions in a round with `k` rounds to come after it. -/
def factorialRound (k : Nat) : Nat :=
  3 + (9 * (k + 1) + 2 + 6)

/-- **A round** multiplies by the number of rounds to come, itself included. -/
theorem FactorsLeft.round {d : Desk} (hk : p.CountsDown (d.cell 90) (k + 1))
    (hd : FactorsLeft p rest total (k + 1) d) : ∃ d',
      Desk.follow factorialCode p (factorialRound k) { d with acc := d.cell 90, pc := 6 } =
          some d' ∧
        d'.pc = 4 ∧ d'.cell 90 = p.exact (d.cell 90 - 1) ∧ FactorsLeft p rest total k d' := by
  obtain ⟨d₁, henter, hpc₁, hcopy, hsum⟩ := stretch_factorialCode_enter (p := p) d
  rw [← hcopy] at hk
  rw [hd.zero] at hsum
  have hone₁ : d₁.cell 95 = 1 := (henter.frame 95 (by decide)).trans hd.one
  obtain ⟨d₂, hloop, hpc₂, hproduct⟩ :=
    Desk.follow_addLoop hasAddLoop_factorialCode hpc₁ hk hone₁ hsum
  obtain ⟨d₃, hleave, hpc₃, hcounter, hplace⟩ := stretch_factorialCode_leave (p := p) hpc₂
  have hround := henter.trans (hloop.trans hleave)
  have hdown : d₃.cell 90 = p.exact (d.cell 90 - 1) := by
    have hbefore := henter.trans hloop
    rw [hcounter, hbefore.frame 90 (by decide), hbefore.frame 95 (by decide), hd.one]
  have hlacks : ∃ w : Nat, d₃.cell 91 = p.exact w ∧ w * k.factorial = total.factorial := by
    obtain ⟨w, hw, htotal⟩ := hd.product
    refine ⟨(k + 1) * w, ?_, ?_⟩
    · rw [hplace, hproduct, henter.frame 91 (by decide), hw, Policy.exact_mul_exact, Nat.cast_mul]
    · rw [← htotal, Nat.factorial_succ]
      ring
  refine ⟨d₃, hround.follow, hpc₃, hdown, hlacks, ?_, ?_, hround.pending.trans hd.pending,
    hround.output.trans hd.output⟩
  · rw [hround.frame 94 (by decide), hd.zero]
  · rw [hround.frame 95 (by decide), hd.one]

/-! ### The program -/

/-- The program comes to its loop with the counter in its mailbox and a product of one. -/
theorem follow_factorialCode_start (hzero : cell 94 = 0) (hone : cell 95 = 1) (n : Int)
    (rest : List Int) (k : Nat) :
    ∃ d, Desk.follow factorialCode p 4 ⟨0, 0, cell, n :: rest, []⟩ = some d ∧ d.pc = 4 ∧
      d.cell 90 = n ∧ FactorsLeft p rest k k d := by
  refine ⟨_, rfl, rfl, rfl, ⟨1, ?_, one_mul _⟩, hzero, hone, rfl, rfl⟩
  rw [Nat.cast_one, p.exact_one]
  exact hone

/-- After its loop the program puts out the product. -/
theorem follow_factorialCode_stop (d : Desk) :
    Desk.follow factorialCode p 2 { d with acc := 0, pc := 24 } = some
      { d with acc := d.cell 91, pc := 26, output := d.output ++ [d.cell 91] } := by
  rfl

/-- The number of instructions in all rounds together, with the test that ends them. -/
theorem loopTime_factorialRound (k : Nat) :
    Desk.loopTime factorialRound k = 9 * (k * (k + 1) / 2) + 13 * k + 2 := by
  induction k with
  | zero => rfl
  | succ k ih =>
    have htriangle : (k + 1) * (k + 1 + 1) / 2 = k * (k + 1) / 2 + (k + 1) := by
      rw [show (k + 1) * (k + 1 + 1) = k * (k + 1) + 2 * (k + 1) by ring,
        Nat.add_mul_div_left _ _ (by decide)]
    rw [Desk.loopTime, ih, htriangle, factorialRound]
    ring

/-- **The program**, for a counter that is taken down to zero in `k` rounds. -/
theorem completes_factorialCode {n : Int} (hzero : cell 94 = 0) (hone : cell 95 = 1)
    (hk : p.CountsDown n k) (rest : List Int) :
    Desk.Completes factorialCode p cell (n :: rest) (9 * (k * (k + 1) / 2) + 13 * k + 8)
      [p.exact k.factorial] rest := by
  obtain ⟨d, hstart, hpc, rfl, hd⟩ := follow_factorialCode_start (p := p) hzero hone n rest k
  have hload : factorialCode[4]? = some (.lda 90) := rfl
  have htest : factorialCode[5]? = some (.brz 24) := rfl
  obtain ⟨d', hloop, hleft⟩ :=
    Desk.follow_loop hload htest (fun _ _ => FactorsLeft.round) hpc hk hd
  have hwhole :=
    Desk.follow_trans hstart (Desk.follow_trans hloop (follow_factorialCode_stop (p := p) d'))
  rw [loopTime_factorialRound, show ∀ t, 4 + (t + 2 + 2) = t + 8 by omega] at hwhole
  obtain ⟨w, hw, htotal⟩ := hleft.product
  rw [Nat.factorial_zero, mul_one] at htotal
  refine ⟨_, hwhole, rfl, ?_, hleft.pending⟩
  rw [hleft.output, hw, htotal, List.nil_append]

/-! ### The sample -/

/-- The sample on any machine, for a counter that is taken down to zero in `k` rounds. -/
theorem yields_factorial {m : Machine} {n : Int} (hk : m.policy.CountsDown (m.policy.clamp n) k)
    (rest : List Int) :
    (factorial.prepare (n :: rest) m).Yields (9 * (k * (k + 1) / 2) + 13 * k + 9)
      [m.policy.exact k.factorial] (rest.map m.policy.clamp)
      (Diagnostic.clampings m.policy (n :: rest)) :=
  yields (portable_of_mem (by decide)) factorialCode_in_layout _
    (completes_factorialCode (by decide +kernel) (by decide +kernel) hk _)

/-- **What the sample for factorials comes to**, on any machine, for a first word `n` that is not
negative, with any input after it. Let it be clamped, as it is when it is queued. Under the decimal
policy, for a word of three digits, the sample puts out the residue of its factorial; under the
other policies its factorial, or the greatest word if that is less. The number of instructions until
it halts is quadratic in the word. The input after it still waits then, and what was reported is
what queueing reports. -/
theorem factorial_yields (m : Machine) (n : Int) (rest : List Int) :
    let N := m.policy.clamp n
    let steps := 9 * (N.toNat * (N.toNat + 1) / 2) + 13 * N.toNat + 9
    let pending := rest.map m.policy.clamp
    let reports := Diagnostic.clampings m.policy (n :: rest)
    (m.policy ≠ .decimal → 0 ≤ N →
      (factorial.prepare (n :: rest) m).Yields steps
        [min (N.toNat.factorial : Int) m.policy.greatest] pending reports) ∧
    (m.policy = .decimal → 0 ≤ N → N ≤ 999 →
      (factorial.prepare (n :: rest) m).Yields steps [(N.toNat.factorial : Int) % 1000] pending
        reports) := by
  intro N steps pending reports
  constructor
  · intro hp hN
    have hk : m.policy.CountsDown N N.toNat :=
      Policy.countsDown_of_ne_decimal hp hN (m.policy.keeps_clamp n)
    rw [← Policy.exact_eq_min hp (Int.natCast_nonneg _)]
    exact yields_factorial hk rest
  · intro hp hN hle
    have hk : m.policy.CountsDown N N.toNat := hp ▸ Policy.countsDown_decimal_of_le hN (by omega)
    rw [← Policy.exact_decimal, ← hp]
    exact yields_factorial hk rest

/-- The factorial of 13 is the first one beyond 32 bits. Of the factorials under the decimal policy
that of 14 is the last one whose residue is not zero. -/
theorem factorial_yields_of_wide :
    (factorial.prepare [13, 4] (Machine.new .bounded32)).Yields 997 [0x7FFFFFFF] [4] [] ∧
    (factorial.prepare [14] (Machine.new .decimal)).Yields 1136 [200] [] [] :=
  ⟨(factorial_yields (Machine.new .bounded32) 13 [4]).1 (by decide) (by decide),
    (factorial_yields (Machine.new .decimal) 14 []).2 rfl (by decide) (by decide)⟩

end Sample

end LittleMan
