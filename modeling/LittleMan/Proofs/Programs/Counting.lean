import Mathlib
import LittleMan.Proofs.ExactArithmetic

/-!
# Calculating with a policy

A program that adds the same word again and again, or takes one away until nothing is left, has each
of its results brought into range before it goes on. What it comes to in the end is said on integers
here, as one exact result that is brought into range once.

For residues there is nothing to it. A range cuts off what is beyond its ends, and forgets how far
beyond it was: that does no harm as long as all later terms have the sign of what was cut off, or
all that is done is to multiply by natural numbers.

A counter can be taken down to zero from any word under the decimal policy, as the first difference
is a residue already, and from any word that is not negative under the other two.

## Main definitions

* `Policy.CountsDown` — how many times one is taken away from a counter until it is zero

## Main results

* `Policy.exact_exact_add`, `Policy.exact_mul_exact` — an exact result may be brought into range on
  the way
* `Policy.countsDown_decimal`, `Policy.countsDown_of_ne_decimal` — how often a counter goes down
-/

namespace LittleMan

/-! ### Cutting off -/

namespace Word

variable {low high v w : Int}

/-- Terms of one sign may be cut off on the way. -/
theorem between_between_add (hlow : low ≤ 0) (hhigh : 0 ≤ high)
    (h : 0 ≤ v ∧ 0 ≤ w ∨ v ≤ 0 ∧ w ≤ 0) :
    between low high (between low high v + w) = between low high (v + w) := by
  simp only [between]
  omega

/-- So may what is multiplied by a natural number. -/
theorem between_mul_between (hlow : low ≤ 0) (hhigh : 0 ≤ high) (n : Nat) (w : Int) :
    between low high (n * between low high w) = between low high (n * w) := by
  rcases Nat.eq_zero_or_pos n with rfl | hn
  · simp
  · -- a multiple of what is beyond an end is beyond that end
    have hn : (1 : Int) ≤ n := by exact_mod_cast hn
    rcases lt_or_ge high w with hw | hw
    · have hcut : between low high w = high := by
        simp only [between]
        omega
      have hhigh' : high ≤ n * high := le_mul_of_one_le_left hhigh hn
      have hmul : n * high ≤ n * w := Int.mul_le_mul_of_nonneg_left hw.le (by omega)
      rw [hcut]
      simp only [between]
      omega
    · rcases lt_or_ge w low with hw' | hw'
      · have hcut : between low high w = low := by
          simp only [between]
          omega
        have hlow' : n * low ≤ low := by nlinarith
        have hmul : n * w ≤ n * low := Int.mul_le_mul_of_nonneg_left hw'.le (by omega)
        rw [hcut]
        simp only [between]
        omega
      · rw [(between_eq_self_iff (by omega)).2 ⟨hw', hw⟩]

end Word

namespace Policy

variable {p : Policy} {v w : Int}

/-! ### Exact results -/

@[simp] theorem exact_zero (p : Policy) : p.exact 0 = 0 := by
  cases p <;> decide

@[simp] theorem exact_one (p : Policy) : p.exact 1 = 1 := by
  cases p <;> decide

theorem least_le_zero (p : Policy) : p.least ≤ 0 :=
  p.keeps_zero.1

theorem zero_le_greatest (p : Policy) : 0 ≤ p.greatest :=
  p.keeps_zero.2

/-- **Adding up.** Terms of one sign may be brought into range on the way. -/
theorem exact_exact_add (h : 0 ≤ v ∧ 0 ≤ w ∨ v ≤ 0 ∧ w ≤ 0) :
    p.exact (p.exact v + w) = p.exact (v + w) := by
  by_cases hp : p = .decimal
  · subst hp
    exact Int.emod_add_emod _ _ _
  · simp only [exact_of_ne_decimal hp]
    exact Word.between_between_add p.least_le_zero p.zero_le_greatest h

/-- **Multiplying.** So may what is multiplied by a natural number. -/
theorem exact_mul_exact (n : Nat) (w : Int) : p.exact (n * p.exact w) = p.exact (n * w) := by
  by_cases hp : p = .decimal
  · subst hp
    exact (Int.mod_modEq w 1000).mul_left n
  · simp only [exact_of_ne_decimal hp]
    exact Word.between_mul_between p.least_le_zero p.zero_le_greatest n w

/-- One more of the same. -/
theorem exact_exact_natCast_mul_add (n : Nat) (w : Int) :
    p.exact (p.exact (n * w) + w) = p.exact ((n + 1 : Nat) * w) := by
  have hsigns : 0 ≤ n * w ∧ 0 ≤ w ∨ n * w ≤ 0 ∧ w ≤ 0 := by
    rcases le_total 0 w with hw | hw
    · exact .inl ⟨mul_nonneg (Int.natCast_nonneg n) hw, hw⟩
    · exact .inr ⟨mul_nonpos_of_nonneg_of_nonpos (Int.natCast_nonneg n) hw, hw⟩
  rw [exact_exact_add hsigns]
  push_cast
  ring_nf

theorem exact_nonneg (hw : 0 ≤ w) : 0 ≤ p.exact w := by
  by_cases hp : p = .decimal
  · subst hp
    exact Int.emod_nonneg _ (by decide)
  · have := p.zero_le_greatest
    rw [exact_of_ne_decimal hp]
    simp only [clamp, Word.between]
    omega

/-- A sum of two words that are not negative, each of them brought into range. -/
theorem exact_exact_add_exact (hv : 0 ≤ v) (hw : 0 ≤ w) :
    p.exact (p.exact v + p.exact w) = p.exact (v + w) := by
  calc p.exact (p.exact v + p.exact w)
      = p.exact (p.exact w + v) := by
        rw [exact_exact_add (.inl ⟨hv, exact_nonneg hw⟩), add_comm]
    _ = p.exact (v + w) := by rw [exact_exact_add (.inl ⟨hw, hv⟩), add_comm]

/-- What is not negative can only be cut off at the upper end. -/
theorem exact_eq_min (hp : p ≠ .decimal) (hw : 0 ≤ w) : p.exact w = min w p.greatest := by
  have := p.least_le_zero
  have := p.zero_le_greatest
  rw [exact_of_ne_decimal hp]
  simp only [clamp, Word.between]
  omega

/-! ### Counting down -/

/-- How many times one is taken away from a counter until it is zero. A counter for which there is
no such number never gets there. -/
inductive CountsDown (p : Policy) : Int → Nat → Prop
  /-- Zero is where it ends. -/
  | done : CountsDown p 0 0
  /-- Any other counter goes down by one first. -/
  | round {c : Int} {k : Nat} (hc : c ≠ 0) (h : CountsDown p (p.exact (c - 1)) k) :
      CountsDown p c (k + 1)

theorem CountsDown.eq_zero {c : Int} (h : p.CountsDown c 0) : c = 0 := by
  cases h
  rfl

theorem countsDown_succ_iff {c : Int} {k : Nat} :
    p.CountsDown c (k + 1) ↔ c ≠ 0 ∧ p.CountsDown (p.exact (c - 1)) k := by
  constructor
  · rintro (_ | ⟨hc, h⟩)
    exact ⟨hc, h⟩
  · rintro ⟨hc, h⟩
    exact .round hc h

/-- A natural number is the number of times, as long as the words below it are kept as they are. -/
theorem countsDown_natCast {n : Nat} (h : ∀ j < n, p.exact (j : Int) = j) :
    p.CountsDown n n := by
  induction n with
  | zero => exact .done
  | succ n ih =>
    have hdown : p.exact ((n + 1 : Nat) - 1) = n := by
      rw [← h n (Nat.lt_succ_self n)]
      congr 1
      omega
    refine .round (by omega) ?_
    rw [hdown]
    exact ih fun j hj => h j (by omega)

theorem countsDown_toNat (hw : 0 ≤ w) (h : ∀ j < w.toNat, p.exact (j : Int) = j) :
    p.CountsDown w w.toNat := by
  have hcount := countsDown_natCast h
  rwa [Int.toNat_of_nonneg hw] at hcount

/-- Under a policy other than the decimal one, a word in range that is not negative is taken down to
zero as many times as it says. -/
theorem countsDown_of_ne_decimal (hp : p ≠ .decimal) (hw : 0 ≤ w) (hkeeps : p.Keeps w) :
    p.CountsDown w w.toNat := by
  refine countsDown_toNat hw fun j hj => ?_
  have hgreatest := hkeeps.2
  rw [exact_eq_min hp (Int.natCast_nonneg j)]
  omega

/-- A word of at most three digits, or 1000, is taken down to zero as many times as it says under
the decimal policy. -/
theorem countsDown_decimal_of_le (hw : 0 ≤ w) (hle : w ≤ 1000) :
    decimal.CountsDown w w.toNat := by
  refine countsDown_toNat hw fun j hj => ?_
  rw [exact_decimal]
  omega

/-- **Under the decimal policy any word is taken down to zero.** The first difference is a residue,
and that many times are left then. -/
theorem countsDown_decimal (w : Int) :
    decimal.CountsDown w (if w = 0 then 0 else 1 + ((w - 1) % 1000).toNat) := by
  split
  · next hw =>
    rw [hw]
    exact .done
  · next hw =>
    have hnonneg : 0 ≤ (w - 1) % 1000 := Int.emod_nonneg _ (by decide)
    have hlt : (w - 1) % 1000 < 1000 := Int.emod_lt_of_pos _ (by decide)
    rw [add_comm]
    exact .round hw (countsDown_decimal_of_le hnonneg hlt.le)

/-- The number of times has the residue of the counter. -/
theorem CountsDown.emod_eq {k : Nat} (h : decimal.CountsDown w k) :
    (k : Int) % 1000 = w % 1000 := by
  generalize hp : decimal = p at h
  induction h with
  | done => rfl
  | @round c k hc h ih =>
    subst hp
    rw [exact_decimal] at ih
    push_cast
    omega

end Policy

end LittleMan
