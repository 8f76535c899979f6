import LittleMan.Proofs.Programs.Loop

/-!
# The largest of three

The sample for the largest of three words compares by subtracting: the difference of two words is
positive if the first one is no less. The difference itself may be out of range, and then it is
brought into it before it is tested.

Under the policies that cut off what is out of range this does no harm, since a difference keeps its
sign when it is cut off. A residue keeps the sign of a difference as long as that lies within half
the ring around zero, as the differences of words below 500 do.

The program reads a word and then compares twice, with the same seven instructions in two places;
they are followed once, for any place.

## Main definitions

* `Policy.Comparable` — the difference of two words shows which of them is larger
* `Desk.keepLarger` — the part of the program that reads a word and compares
* `Sample.maxOfThreeCode` — the program of the sample

## Main results

* `Policy.Comparable.positive_exact_iff` — the test of the program is right
* `Desk.Leading.follow_keepLarger` — what a comparison leaves behind
* `Sample.maxOfThree_yields` — what the sample comes to
-/

namespace LittleMan

/-! ### Comparing -/

namespace Policy

variable {p : Policy} {v w : Int}

/-- The difference of two words shows which of them is larger. Under the decimal policy it has to
lie within half the ring around zero. -/
def Comparable (p : Policy) (v w : Int) : Prop :=
  p = .decimal → -500 ≤ v - w ∧ v - w < 500

/-- A word keeps its sign when it is cut off, since the least word of every policy is negative. -/
theorem clamp_nonneg_iff : 0 ≤ p.clamp w ↔ 0 ≤ w := by
  cases p <;>
    simp only [clamp, Word.between, least, greatest, Word.least, Word.greatest] <;>
    omega

/-- **The sign of a difference** is kept when the difference is brought into range. -/
theorem Comparable.positive_exact_iff (h : p.Comparable v w) :
    p.Positive (p.exact (v - w)) ↔ w ≤ v := by
  by_cases hp : p = .decimal
  · obtain ⟨hlow, hhigh⟩ := h hp
    subst hp
    simp only [Positive, exact_decimal, true_imp_iff]
    omega
  · rw [exact_of_ne_decimal hp, Positive, clamp_nonneg_iff, and_iff_left fun hd => absurd hd hp,
      sub_nonneg]

/-- The next differences on either side show the wrong sign. -/
example :
    ¬decimal.Positive (decimal.exact (500 - 0)) ∧ decimal.Positive (decimal.exact (0 - 501)) := by
  decide

/-- Words from 0 to 499 can be compared, and so can any words under a policy that is not the decimal
one. -/
theorem comparable_of_le (h : p = .decimal → (0 ≤ v ∧ v ≤ 499) ∧ 0 ≤ w ∧ w ≤ 499) :
    p.Comparable v w := by
  intro hp
  have hbounds := h hp
  omega

/-- Every policy keeps the words from 0 to 499. -/
theorem clamp_of_le (h : 0 ≤ w ∧ w ≤ 499) : p.clamp w = w := by
  have hkeeps : decimal.Keeps w := by
    simp only [Keeps, least, greatest]
    omega
  exact clamp_eq_self_iff.2 (hkeeps.of_decimal p)

end Policy

namespace Desk

variable {code : List Instruction} {p : Policy}

/-- The part of a program that reads a word and leaves in mailbox 90 the larger one of it and of the
word that was there. It goes on at mailbox `exit`, which comes right after it. -/
def keepLarger (exit : Nat) : List Instruction :=
  [.inp, .sta 91, .lda 90, .sub 91, .brp exit, .lda 91, .sta 90]

variable {head : Nat} {v w : Int} {rest : List Int} {d : Desk}

/-- The next word is read, and the branch goes by its difference to the word in mailbox 90. -/
theorem follow_keepLarger_test (hplaced : keepLarger (head + 7) <+: code.drop head)
    (hsize : code.length ≤ 90) (hpc : d.pc = head) (hpending : d.pending = w :: rest) :
    follow code p 5 d = some
      { d with
        acc := p.exact (d.cell 90 - w)
        pc := if p.Positive (p.exact (d.cell 90 - w)) then head + 7 else head + 5
        cell := Function.update d.cell 91 w
        pending := rest } := by
  have h0 := getElem?_of_placed hplaced (j := 0) rfl
  have h1 := getElem?_of_placed hplaced (j := 1) rfl
  have h2 := getElem?_of_placed hplaced (j := 2) rfl
  have h3 := getElem?_of_placed hplaced (j := 3) rfl
  have h4 := getElem?_of_placed hplaced (j := 4) rfl
  have hle : code.length ≤ 91 := by omega
  rw [Nat.add_zero] at h0
  simp [follow, next, carryOut, hpc, hpending, Nat.add_assoc, h0, h1, h2, h3, h4, hle]

/-- If the branch is not taken, the word that was read goes to mailbox 90. -/
theorem follow_keepLarger_store (hplaced : keepLarger (head + 7) <+: code.drop head)
    (hsize : code.length ≤ 90) (hpc : d.pc = head + 5) :
    follow code p 2 d = some
      { d with
        acc := d.cell 91
        pc := head + 7
        cell := Function.update d.cell 90 (d.cell 91) } := by
  have h5 := getElem?_of_placed hplaced (j := 5) rfl
  have h6 := getElem?_of_placed hplaced (j := 6) rfl
  simp [follow, next, carryOut, hpc, Nat.add_assoc, h5, h6, hsize]

/-- The program is at mailbox `pc`, the largest word so far is `v`, and nothing was put out. -/
structure Leading (pc : Nat) (v : Int) (pending : List Int) (d : Desk) : Prop where
  pc : d.pc = pc
  largest : d.cell 90 = v
  pending : d.pending = pending
  output : d.output = []

/-- The number of instructions of a comparison: two less if the word that was there is the larger
one. -/
def keepLargerTime (v w : Int) : Nat :=
  if w ≤ v then 5 else 7

theorem keepLargerTime_le (v w : Int) : keepLargerTime v w ≤ 7 := by
  rw [keepLargerTime]
  split <;> omega

/-- **A comparison** leaves the larger one of two words. -/
theorem Leading.follow_keepLarger (hd : Leading head v (w :: rest) d)
    (hplaced : keepLarger (head + 7) <+: code.drop head) (hsize : code.length ≤ 90)
    (hcomparable : p.Comparable v w) :
    ∃ d', follow code p (keepLargerTime v w) d = some d' ∧
      Leading (head + 7) (max v w) rest d' := by
  have htest := follow_keepLarger_test (p := p) hplaced hsize hd.pc hd.pending
  rw [hd.largest] at htest
  rw [keepLargerTime]
  by_cases h : w ≤ v
  · rw [if_pos (hcomparable.positive_exact_iff.2 h)] at htest
    rw [if_pos h, max_eq_left h]
    exact ⟨_, htest, rfl, hd.largest, rfl, hd.output⟩
  · rw [if_neg (mt hcomparable.positive_exact_iff.1 h)] at htest
    have hstore := follow_trans htest (follow_keepLarger_store hplaced hsize rfl)
    rw [if_neg h, max_eq_right (by omega)]
    exact ⟨_, hstore, rfl, rfl, rfl, hd.output⟩

end Desk

namespace Sample

/-- The program for the largest of three words. -/
def maxOfThreeCode : List Instruction :=
  [.inp, .sta 90] ++ Desk.keepLarger 9 ++ Desk.keepLarger 16 ++ [.lda 90, .out, .hlt]

theorem maxOfThreeCode_in_layout :
    maxOfThreeCode <+: maxOfThree.layout.toList.map Instruction.decode := by
  decide +kernel

variable {p : Policy}

/-- The number of instructions before the halt, for three words in order. -/
def maxOfThreeTime (a b c : Int) : Nat :=
  2 + (Desk.keepLargerTime a b + (Desk.keepLargerTime (max a b) c + 2))

/-- The program begins with the first word as the largest so far. -/
theorem follow_maxOfThreeCode_start (cell : Nat → Int) (a : Int) (rest : List Int) :
    ∃ d, Desk.follow maxOfThreeCode p 2 ⟨0, 0, cell, a :: rest, []⟩ = some d ∧
      Desk.Leading 2 a rest d :=
  ⟨_, rfl, rfl, rfl, rfl, rfl⟩

/-- In the end the program puts out the largest word. -/
theorem follow_maxOfThreeCode_stop {d : Desk} (hpc : d.pc = 16) :
    Desk.follow maxOfThreeCode p 2 d = some
      { d with acc := d.cell 90, pc := 18, output := d.output ++ [d.cell 90] } := by
  obtain ⟨acc, pc, cell, pending, output⟩ := d
  cases hpc
  rfl

/-- **The program**, for words that can be compared. -/
theorem completes_maxOfThreeCode {cell : Nat → Int} {a b c : Int} (hab : p.Comparable a b)
    (habc : p.Comparable (max a b) c) (rest : List Int) :
    Desk.Completes maxOfThreeCode p cell (a :: b :: c :: rest) (maxOfThreeTime a b c)
      [max (max a b) c] rest := by
  have hsize : maxOfThreeCode.length ≤ 90 := by decide
  have hplaced : Desk.keepLarger 9 <+: maxOfThreeCode.drop 2 := by decide
  have hplaced' : Desk.keepLarger 16 <+: maxOfThreeCode.drop 9 := by decide
  obtain ⟨d₀, hstart, hd₀⟩ := follow_maxOfThreeCode_start (p := p) cell a (b :: c :: rest)
  obtain ⟨d₁, hsecond, hd₁⟩ := hd₀.follow_keepLarger hplaced hsize hab
  obtain ⟨d₂, hthird, hd₂⟩ := hd₁.follow_keepLarger hplaced' hsize habc
  have hstop := follow_maxOfThreeCode_stop (p := p) hd₂.pc
  have hwhole :=
    Desk.follow_trans hstart (Desk.follow_trans hsecond (Desk.follow_trans hthird hstop))
  refine ⟨_, hwhole, rfl, ?_, hd₂.pending⟩
  rw [hd₂.output, hd₂.largest, List.nil_append]

/-! ### The sample -/

theorem maxOfThreeTime_le (a b c : Int) : maxOfThreeTime a b c ≤ 18 := by
  have hsecond := Desk.keepLargerTime_le a b
  have hthird := Desk.keepLargerTime_le (max a b) c
  rw [maxOfThreeTime]
  omega

/-- **What the sample for the largest of three comes to**, on any machine, for any three words with
any input after them; under the decimal policy the words have to be from 0 to 499. Let them be
clamped, as they are when they are queued. The sample puts out the largest of them, also if a
difference of two of them is out of range. It halts within nineteen instructions, of which it saves
two for each word that is no larger than the ones before it. The input after the three words still
waits then, and what was reported is what queueing reports. -/
theorem maxOfThree_yields (m : Machine) (a b c : Int) (rest : List Int)
    (hsmall : m.policy = .decimal → ∀ w ∈ [a, b, c], 0 ≤ w ∧ w ≤ 499) :
    let A := m.policy.clamp a
    let B := m.policy.clamp b
    let C := m.policy.clamp c
    let steps := maxOfThreeTime A B C + 1
    let pending := rest.map m.policy.clamp
    let reports := Diagnostic.clampings m.policy (a :: b :: c :: rest)
    steps ≤ 19 ∧
      (maxOfThree.prepare (a :: b :: c :: rest) m).Yields steps [max (max A B) C] pending
        reports := by
  intro A B C steps pending reports
  have hbounds : m.policy = .decimal → (0 ≤ A ∧ A ≤ 499) ∧ (0 ≤ B ∧ B ≤ 499) ∧ 0 ≤ C ∧ C ≤ 499 := by
    intro hp
    have hwords := hsmall hp
    simp only [List.forall_mem_cons] at hwords
    obtain ⟨ha, hb, hc, -⟩ := hwords
    simp only [A, B, C, Policy.clamp_of_le ha, Policy.clamp_of_le hb, Policy.clamp_of_le hc]
    exact ⟨ha, hb, hc⟩
  have hab : m.policy.Comparable A B := Policy.comparable_of_le fun hp => by
    have := hbounds hp
    omega
  have habc : m.policy.Comparable (max A B) C := Policy.comparable_of_le fun hp => by
    have := hbounds hp
    omega
  refine ⟨Nat.succ_le_succ (maxOfThreeTime_le A B C), ?_⟩
  exact yields (portable_of_mem (by decide)) maxOfThreeCode_in_layout _
    (completes_maxOfThreeCode hab habc _)

/-- On the 64-bit machine the first difference stops at the least word and the second one at the
greatest. On the 32-bit machine the first word is clamped, and the third one is equal to it then. -/
theorem maxOfThree_yields_of_ends :
    (maxOfThree.prepare [Word.least, Word.greatest, Word.least] (Machine.new .bounded64)).Yields 17
        [Word.greatest] [] [] ∧
    (maxOfThree.prepare [0x80000000, 5, 0x7FFFFFFF, 4] (Machine.new .bounded32)).Yields 15
        [0x7FFFFFFF] [4] [.valueClamped 0x80000000 0x7FFFFFFF] ∧
    (maxOfThree.prepare [0, 498, 499] (Machine.new .decimal)).Yields 19 [499] [] [] :=
  ⟨(maxOfThree_yields (Machine.new .bounded64) _ _ _ [] (by decide)).2,
    (maxOfThree_yields (Machine.new .bounded32) _ 5 _ [4] (by decide)).2,
    (maxOfThree_yields (Machine.new .decimal) 0 498 499 [] (by decide)).2⟩

end Sample

end LittleMan
