import LittleMan.Proofs.Programs.Loop

/-!
# Fibonacci numbers

The sample for Fibonacci numbers keeps two neighbours among them. A round of its loop puts out the
first one and goes on to the next two; its counter says how many of them there will be.

Each number is brought into range as it is added up. Under the policies that cut off what is out of
range this does no harm, as what is added to a number that was cut off is never negative: all
numbers beyond the greatest word come out as the greatest word.

## Main definitions

* `Sample.fibonacciCode` — the program of the sample
* `Sample.TermsLeft` — the invariant of its loop

## Main results

* `Sample.completes_fibonacciCode` — the program, for a counter that comes to zero
* `Sample.fibonacci_yields` — what the sample comes to
-/

namespace LittleMan

namespace Sample

/-- The program for Fibonacci numbers. Its loop is at mailbox 6. -/
def fibonacciCode : List Instruction :=
  [.inp, .sta 90, .lda 94, .sta 91, .lda 95, .sta 92, .lda 90, .brz 20, .lda 91, .out, .add 92,
    .sta 93, .lda 92, .sta 91, .lda 93, .sta 92, .lda 90, .sub 95, .sta 90, .bra 6, .hlt]

theorem fibonacciCode_in_layout :
    fibonacciCode <+: fibonacci.layout.toList.map Instruction.decode := by
  decide +kernel

variable {p : Policy} {cell : Nat → Int} {rest : List Int} {total k : Nat}

/-! ### One round -/

/-- Where the program is with `k` numbers to come, out of `total`. -/
structure TermsLeft (p : Policy) (rest : List Int) (total k : Nat) (d : Desk) : Prop where
  /-- The numbers so far were put out, and the next two are in their mailboxes. -/
  terms : ∃ j, j + k = total ∧ d.cell 91 = p.exact (Nat.fib j) ∧
    d.cell 92 = p.exact (Nat.fib (j + 1)) ∧
    d.output = (List.range j).map fun i => p.exact (Nat.fib i)
  one : d.cell 95 = 1
  pending : d.pending = rest

/-- The two numbers move on by one, and the counter goes down. -/
theorem follow_fibonacciCode_body (d : Desk) :
    ∃ d', Desk.follow fibonacciCode p 12 { d with acc := d.cell 90, pc := 8 } = some d' ∧
      d'.pc = 6 ∧ d'.cell 90 = p.exact (d.cell 90 - d.cell 95) ∧ d'.cell 91 = d.cell 92 ∧
      d'.cell 92 = p.exact (d.cell 91 + d.cell 92) ∧ d'.cell 95 = d.cell 95 ∧
      d'.pending = d.pending ∧ d'.output = d.output ++ [d.cell 91] :=
  ⟨_, rfl, rfl, rfl, rfl, rfl, rfl, rfl, rfl⟩

/-- **A round** puts out the next number. -/
theorem TermsLeft.round {d : Desk} (hd : TermsLeft p rest total (k + 1) d) : ∃ d',
    Desk.follow fibonacciCode p 12 { d with acc := d.cell 90, pc := 8 } = some d' ∧ d'.pc = 6 ∧
      d'.cell 90 = p.exact (d.cell 90 - 1) ∧ TermsLeft p rest total k d' := by
  obtain ⟨j, hj, h91, h92, houtput⟩ := hd.terms
  obtain ⟨d', hbody, hpc, hcounter, hthis, hnext, hone, hpending, houtput'⟩ :=
    follow_fibonacciCode_body (p := p) d
  rw [hd.one] at hcounter hone
  refine ⟨d', hbody, hpc, hcounter, ⟨j + 1, by omega, hthis.trans h92, ?_, ?_⟩, hone,
    hpending.trans hd.pending⟩
  · rw [hnext, h91, h92, Policy.exact_exact_add_exact (Int.natCast_nonneg _) (Int.natCast_nonneg _),
      Nat.fib_add_two, Nat.cast_add]
  · rw [houtput', houtput, h91, List.range_succ, List.map_append, List.map_singleton]

/-! ### The program -/

/-- The program comes to its loop with the counter and the first two numbers in their mailboxes. -/
theorem follow_fibonacciCode_start (hzero : cell 94 = 0) (hone : cell 95 = 1) (n : Int)
    (rest : List Int) (k : Nat) :
    ∃ d, Desk.follow fibonacciCode p 6 ⟨0, 0, cell, n :: rest, []⟩ = some d ∧ d.pc = 6 ∧
      d.cell 90 = n ∧ TermsLeft p rest k k d := by
  refine ⟨_, rfl, rfl, rfl, ⟨0, Nat.zero_add k, ?_, ?_, rfl⟩, hone, rfl⟩
  · rw [Nat.fib_zero, Nat.cast_zero, p.exact_zero]
    exact hzero
  · rw [Nat.fib_one, Nat.cast_one, p.exact_one]
    exact hone

/-- **The program**, for a counter that is taken down to zero in `k` rounds. -/
theorem completes_fibonacciCode {n : Int} (hzero : cell 94 = 0) (hone : cell 95 = 1)
    (hk : p.CountsDown n k) (rest : List Int) :
    Desk.Completes fibonacciCode p cell (n :: rest) (14 * k + 8)
      ((List.range k).map fun i => p.exact (Nat.fib i)) rest := by
  obtain ⟨d, hstart, hpc, rfl, hd⟩ := follow_fibonacciCode_start (p := p) hzero hone n rest k
  have hload : fibonacciCode[6]? = some (.lda 90) := rfl
  have htest : fibonacciCode[7]? = some (.brz 20) := rfl
  obtain ⟨d', hloop, hleft⟩ :=
    Desk.follow_loop hload htest (fun _ _ _ => TermsLeft.round) hpc hk hd
  have hwhole := Desk.follow_trans hstart hloop
  rw [Desk.loopTime_const, show 6 + ((12 + 2) * k + 2) = 14 * k + 8 by omega] at hwhole
  obtain ⟨j, rfl, -, -, houtput⟩ := hleft.terms
  exact ⟨_, hwhole, rfl, houtput, hleft.pending⟩

/-! ### The sample -/

/-- The sample on any machine, for a counter that is taken down to zero in `k` rounds. -/
theorem yields_fibonacci {m : Machine} {n : Int} (hk : m.policy.CountsDown (m.policy.clamp n) k)
    (rest : List Int) :
    (fibonacci.prepare (n :: rest) m).Yields (14 * k + 9)
      ((List.range k).map fun i => m.policy.exact (Nat.fib i)) (rest.map m.policy.clamp)
      (Diagnostic.clampings m.policy (n :: rest)) :=
  yields (portable_of_mem (by decide)) fibonacciCode_in_layout _
    (completes_fibonacciCode (by decide +kernel) (by decide +kernel) hk _)

/-- **What the sample for Fibonacci numbers comes to**, on any machine, for a first word `n` that is
not negative, with any input after it. Let it be clamped, as it is when it is queued. The sample
puts out as many Fibonacci numbers as it says, in order: under the decimal policy, for at most a
thousand of them, their residues; under the other policies each number, or the greatest word if that
is less. It halts after fourteen instructions for each of them and nine more. The input after the
word still waits then, and what was reported is what queueing reports. -/
theorem fibonacci_yields (m : Machine) (n : Int) (rest : List Int) :
    let N := m.policy.clamp n
    let steps := 14 * N.toNat + 9
    let pending := rest.map m.policy.clamp
    let reports := Diagnostic.clampings m.policy (n :: rest)
    (m.policy ≠ .decimal → 0 ≤ N →
      (fibonacci.prepare (n :: rest) m).Yields steps
        ((List.range N.toNat).map fun i => min (Nat.fib i : Int) m.policy.greatest) pending
        reports) ∧
    (m.policy = .decimal → 0 ≤ N → N ≤ 1000 →
      (fibonacci.prepare (n :: rest) m).Yields steps
        ((List.range N.toNat).map fun i => (Nat.fib i : Int) % 1000) pending reports) := by
  intro N steps pending reports
  constructor
  · intro hp hN
    have hk : m.policy.CountsDown N N.toNat :=
      Policy.countsDown_of_ne_decimal hp hN (m.policy.keeps_clamp n)
    have hterm : ∀ i : Nat, m.policy.exact (Nat.fib i) = min (Nat.fib i : Int) m.policy.greatest :=
      fun i => Policy.exact_eq_min hp (Int.natCast_nonneg _)
    simp only [← hterm]
    exact yields_fibonacci hk rest
  · intro hp hN hle
    have hk : m.policy.CountsDown N N.toNat := hp ▸ Policy.countsDown_decimal_of_le hN hle
    simp only [← Policy.exact_decimal, ← hp]
    exact yields_fibonacci hk rest

/-- The number after 987 is the first one of four digits. A zero asks for no numbers. -/
theorem fibonacci_yields_of_residues :
    (fibonacci.prepare [19, 4] (Machine.new .decimal)).Yields 275
      [0, 1, 1, 2, 3, 5, 8, 13, 21, 34, 55, 89, 144, 233, 377, 610, 987, 597, 584] [4] [] ∧
    (fibonacci.prepare [0] (Machine.new .bounded64)).Yields 9 [] [] [] :=
  ⟨(fibonacci_yields (Machine.new .decimal) 19 [4]).2 rfl (by decide) (by decide),
    (fibonacci_yields (Machine.new .bounded64) 0 []).1 (by decide) (by decide)⟩

end Sample

end LittleMan
