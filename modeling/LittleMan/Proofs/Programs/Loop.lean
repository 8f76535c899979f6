import LittleMan.Proofs.Programs.Counting
import LittleMan.Proofs.Programs.Desk

/-!
# Loops

The programs here loop in one way. A loop begins by loading a counter, and is left if that is zero;
else its body takes one away from the counter and branches back. So a loop makes as many rounds as
the counter can be taken down, and to know what it comes to one has to know what a round does to
what is still to be done. That induction is made once, for any invariant that counts the rounds to
come.

The simplest body adds a mailbox to another one. The loop with this body multiplies; it is stated
for any mailboxes and any place in a program. What is around such a loop can rely on it to leave the
rest of the desk alone: a stretch of a program comes with the mailboxes that it writes to.

## Main definitions

* `Desk.Stretch` — some instructions that neither take input nor put anything out
* `Desk.loopTime` — the number of instructions of a loop
* `Desk.addLoop` — the loop that adds one mailbox to another

## Main results

* `Desk.follow_loop` — what a loop comes to
* `Desk.follow_addLoop` — the product of its counter and what it adds
-/

namespace LittleMan

namespace Desk

variable {code : List Instruction} {p : Policy}

/-- A part of a program, by its place. -/
theorem getElem?_of_placed {part : List Instruction} {head j : Nat} {i : Instruction}
    (h : part <+: code.drop head) (hi : part[j]? = some i) : code[head + j]? = some i := by
  obtain ⟨rest, hrest⟩ := h
  obtain ⟨hj, -⟩ := List.getElem?_eq_some_iff.1 hi
  rw [← List.getElem?_drop, ← hrest, List.getElem?_append_left hj, hi]

/-! ### Stretches -/

/-- A stretch of `n` instructions that takes no input, puts nothing out, and writes to no mailboxes
but the `written` ones. -/
structure Stretch (code : List Instruction) (p : Policy) (n : Nat) (written : List Nat)
    (d d' : Desk) : Prop where
  follow : Desk.follow code p n d = some d'
  frame : ∀ a, a ∉ written → d'.cell a = d.cell a
  pending : d'.pending = d.pending
  output : d'.output = d.output

/-- One stretch after the other. -/
theorem Stretch.trans {n n' : Nat} {written written' : List Nat} {d₀ d₁ d₂ : Desk}
    (h : Stretch code p n written d₀ d₁) (h' : Stretch code p n' written' d₁ d₂) :
    Stretch code p (n + n') (written ++ written') d₀ d₂ where
  follow := follow_trans h.follow h'.follow
  frame a ha := by
    rw [List.mem_append, not_or] at ha
    rw [h'.frame a ha.2, h.frame a ha.1]
  pending := h'.pending.trans h.pending
  output := h'.output.trans h.output

/-! ### Rounds -/

/-- The number of instructions of a loop with `k` rounds to come, if the round before the last `k`
ones takes `body k`. -/
def loopTime (body : Nat → Nat) : Nat → Nat
  | 0 => 2
  | k + 1 => 2 + (body k + loopTime body k)

theorem loopTime_const (n k : Nat) : loopTime (fun _ => n) k = (n + 2) * k + 2 := by
  induction k with
  | zero => rfl
  | succ k ih =>
    rw [loopTime, ih]
    ring

/-- A loop begins with a test of its counter. -/
theorem follow_test {head counter exit : Nat} (hload : code[head]? = some (.lda counter))
    (htest : code[head + 1]? = some (.brz exit)) {d : Desk} (hpc : d.pc = head) :
    follow code p 2 d = some { d with
      acc := d.cell counter
      pc := if d.cell counter = 0 then exit else head + 2 } := by
  simp [follow, next, carryOut, hpc, hload, htest]

/-- **What a loop comes to.** If a round takes the counter down by one and leaves the invariant for
one round less, then the loop is left with the invariant for no more rounds. -/
theorem follow_loop {head counter exit : Nat} (hload : code[head]? = some (.lda counter))
    (htest : code[head + 1]? = some (.brz exit)) {Inv : Nat → Desk → Prop} {time : Nat → Nat}
    (body : ∀ k d, p.CountsDown (d.cell counter) (k + 1) → Inv (k + 1) d → ∃ d',
      follow code p (time k) { d with acc := d.cell counter, pc := head + 2 } = some d' ∧
        d'.pc = head ∧ d'.cell counter = p.exact (d.cell counter - 1) ∧ Inv k d')
    {k : Nat} {d : Desk} (hpc : d.pc = head) (hk : p.CountsDown (d.cell counter) k)
    (hd : Inv k d) :
    ∃ d', follow code p (loopTime time k) d = some { d' with acc := 0, pc := exit } ∧ Inv 0 d' := by
  induction k generalizing d with
  | zero =>
    have hleft := follow_test (p := p) hload htest hpc
    rw [hk.eq_zero, if_pos rfl] at hleft
    exact ⟨d, hleft, hd⟩
  | succ k ih =>
    have hentered := follow_test (p := p) hload htest hpc
    obtain ⟨hc, hrest⟩ := Policy.countsDown_succ_iff.1 hk
    rw [if_neg hc] at hentered
    obtain ⟨d₁, hbody, hpc₁, hcounter, hd₁⟩ := body k d hk hd
    rw [← hcounter] at hrest
    obtain ⟨d', hloop, hd'⟩ := ih hpc₁ hrest hd₁
    exact ⟨d', follow_trans hentered (follow_trans hbody hloop), hd'⟩

/-! ### Multiplying -/

/-- The loop that adds the mailbox `addend` to the mailbox `sum` as many times as the counter can be
taken down. Mailbox 95 holds the one that is taken away. -/
def addLoop (head counter addend sum exit : Nat) : List Instruction :=
  [.lda counter, .brz exit, .lda sum, .add addend, .sta sum, .lda counter, .sub 95, .sta counter,
    .bra head]

/-- A program has the loop at mailbox `head`, and the mailboxes that the loop works on are apart
from the program and from each other. -/
structure HasAddLoop (code : List Instruction) (head counter addend sum exit : Nat) : Prop where
  placed : addLoop head counter addend sum exit <+: code.drop head
  le_counter : code.length ≤ counter
  le_sum : code.length ≤ sum
  counter_ne_one : counter ≠ 95
  counter_ne_addend : counter ≠ addend
  sum_ne_one : sum ≠ 95
  sum_ne_addend : sum ≠ addend
  sum_ne_counter : sum ≠ counter

/-- Where the loop is with `k` rounds to come, out of `total` from the desk `start` on. -/
structure Adding (p : Policy) (start : Desk) (counter addend sum total k : Nat) (d : Desk) :
    Prop where
  /-- The rounds that were made have added as many times. -/
  added : ∃ j, j + k = total ∧ d.cell sum = p.exact (j * start.cell addend)
  frame : ∀ a, a ∉ [counter, sum] → d.cell a = start.cell a
  pending : d.pending = start.pending
  output : d.output = start.output

variable {head counter addend sum exit : Nat}

/-- One round, once the counter was found not to be zero. -/
theorem follow_addLoop_body (h : HasAddLoop code head counter addend sum exit) {d : Desk}
    (hpc : d.pc = head + 2) (hone : d.cell 95 = 1) :
    follow code p 7 d = some
      { d with
        acc := p.exact (d.cell counter - 1)
        pc := head
        cell := Function.update
          (Function.update d.cell sum (p.exact (d.cell sum + d.cell addend))) counter
          (p.exact (d.cell counter - 1)) } := by
  have h2 := getElem?_of_placed h.placed (j := 2) rfl
  have h3 := getElem?_of_placed h.placed (j := 3) rfl
  have h4 := getElem?_of_placed h.placed (j := 4) rfl
  have h5 := getElem?_of_placed h.placed (j := 5) rfl
  have h6 := getElem?_of_placed h.placed (j := 6) rfl
  have h7 := getElem?_of_placed h.placed (j := 7) rfl
  have h8 := getElem?_of_placed h.placed (j := 8) rfl
  simp [follow, next, carryOut, hpc, Nat.add_assoc, h2, h3, h4, h5, h6, h7, h8, h.le_counter,
    h.le_sum, Function.update_of_ne h.sum_ne_counter.symm, Function.update_of_ne h.sum_ne_one.symm,
    hone]

/-- A round keeps the invariant. -/
theorem Adding.round (h : HasAddLoop code head counter addend sum exit) {start d : Desk}
    {total k : Nat} (hone : start.cell 95 = 1)
    (hd : Adding p start counter addend sum total (k + 1) d) : ∃ d',
      follow code p 7 { d with acc := d.cell counter, pc := head + 2 } = some d' ∧ d'.pc = head ∧
        d'.cell counter = p.exact (d.cell counter - 1) ∧
        Adding p start counter addend sum total k d' := by
  have hone₁ : d.cell 95 = 1 := by
    rw [hd.frame 95 (by simp [h.counter_ne_one.symm, h.sum_ne_one.symm]), hone]
  have haddend : d.cell addend = start.cell addend :=
    hd.frame addend (by simp [h.counter_ne_addend.symm, h.sum_ne_addend.symm])
  obtain ⟨j, hj, hsum⟩ := hd.added
  refine ⟨_, follow_addLoop_body h rfl hone₁, rfl, Function.update_self .., ?_, ?_, hd.pending,
    hd.output⟩
  · refine ⟨j + 1, by omega, ?_⟩
    simp only [Function.update_of_ne h.sum_ne_counter, Function.update_self, hsum, haddend]
    exact Policy.exact_exact_natCast_mul_add j _
  · intro a ha
    have hne : a ≠ counter ∧ a ≠ sum := by simpa using ha
    simp only [Function.update_of_ne hne.1, Function.update_of_ne hne.2]
    exact hd.frame a ha

/-- **The loop multiplies.** It leaves in the mailbox `sum`, which was zero, the product of what it
adds and the number of its rounds, and writes to no other mailbox but its counter. -/
theorem follow_addLoop (h : HasAddLoop code head counter addend sum exit) {k : Nat} {d : Desk}
    (hpc : d.pc = head) (hk : p.CountsDown (d.cell counter) k) (hone : d.cell 95 = 1)
    (hzero : d.cell sum = 0) :
    ∃ d', Stretch code p (9 * k + 2) [counter, sum] d d' ∧ d'.pc = exit ∧
      d'.cell sum = p.exact (k * d.cell addend) := by
  have hstart : Adding p d counter addend sum k k d := by
    refine ⟨⟨0, Nat.zero_add k, ?_⟩, fun _ _ => rfl, rfl, rfl⟩
    rw [hzero, Nat.cast_zero, zero_mul, p.exact_zero]
  obtain ⟨d', hd', hleft⟩ := follow_loop (getElem?_of_placed h.placed (j := 0) rfl)
    (getElem?_of_placed h.placed (j := 1) rfl) (fun _ _ _ hd => hd.round h hone) hpc hk hstart
  rw [loopTime_const] at hd'
  obtain ⟨j, rfl, hsum⟩ := hleft.added
  exact ⟨_, ⟨hd', hleft.frame, hleft.pending, hleft.output⟩, rfl, hsum⟩

end Desk

end LittleMan
