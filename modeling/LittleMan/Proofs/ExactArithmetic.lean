import LittleMan.Policy

/-!
# Exact arithmetic

The adder of the machine is 64 bits wide. It wraps around under the decimal policy and saturates
under the other two, and only then is a result brought into the range of the policy. Here is what
the results ought to be, on integers without any bound: the residue modulo 1000 under the decimal
policy, the nearest word in range under the other two.

Saturating first never shows, since a range lies within that of the adder. Wrapping first does show
on sums that do not fit the adder, since 1000 does not divide `Word.count`. Words that the policy
keeps are too small for such a sum.

Words that fit the adder need not be too small, and then it matters how often a sum is wrapped
around. The residue survives a multiple of 125 turns and no other number of them; two words that fit
have a sum and a difference which turn once at most, so that it survives exactly if they fit.

## Main definitions

* `Policy.exact` — what an exact sum or difference ought to become
* `Policy.Positive` — when a branch on positive ought to be taken
* `Word.turns` — how often a word is wrapped around

## Main results

* `Policy.add_eq_exact`, `Policy.sub_eq_exact` — exactness on words that the policy keeps
* `Policy.reduce_decimal_eq_emod_iff` — when wrapping around keeps the residue
* `Policy.arithmetic_exact` — exactness on words that fit the adder
-/

namespace LittleMan

namespace Policy

/-- What an exact sum or difference ought to become: its residue from 0 to 999 under the decimal
policy, the nearest word in range under the other two. -/
def exact : Policy → Int → Int
  | decimal, w => w % 1000
  | bounded32, w => bounded32.clamp w
  | bounded64, w => bounded64.clamp w

@[simp] theorem exact_decimal (w : Int) : decimal.exact w = w % 1000 := rfl

/-- A policy other than the decimal one cuts off what is out of range. -/
theorem exact_of_ne_decimal {p : Policy} (hp : p ≠ .decimal) (w : Int) : p.exact w = p.clamp w := by
  cases p with
  | decimal => exact absurd rfl hp
  | bounded32 => rfl
  | bounded64 => rfl

/-- A word counts as positive if it is not negative and, under the decimal policy, belongs to the
lower half of the residues. -/
def Positive (p : Policy) (w : Int) : Prop :=
  0 ≤ w ∧ (p = .decimal → w < 500)

instance (p : Policy) (w : Int) : Decidable (p.Positive w) :=
  inferInstanceAs (Decidable (_ ∧ (_ → _)))

theorem isPositive_iff {p : Policy} {w : Int} : p.isPositive w = true ↔ p.Positive w := by
  cases p <;> simp [isPositive, Positive]

/-- Saturating before clamping makes no difference. -/
theorem clamp_saturate (p : Policy) (w : Int) : p.clamp (Word.saturate w) = p.clamp w := by
  cases p <;>
    simp only [clamp, Word.saturate, Word.between, least, greatest, Word.least, Word.greatest] <;>
    omega

/-- What becomes of a sum is exact, unless the decimal machine wraps around in its adder. -/
theorem reduce_eq_exact {p : Policy} {w : Int} (h : p = .decimal → Word.Fits w) :
    p.reduce w = p.exact w := by
  cases p with
  | decimal => rw [reduce, exact, Word.wrap_eq_self_iff.2 (h rfl)]
  | bounded32 => exact clamp_saturate _ _
  | bounded64 => exact clamp_saturate _ _

theorem add_eq_exact {p : Policy} {a b : Int} (ha : p.Keeps a) (hb : p.Keeps b) :
    p.add a b = p.exact (a + b) := by
  refine reduce_eq_exact fun hp => ?_
  subst hp
  simp only [Keeps, least, greatest] at ha hb
  rw [Word.fits_iff]
  omega

theorem sub_eq_exact {p : Policy} {a b : Int} (ha : p.Keeps a) (hb : p.Keeps b) :
    p.sub a b = p.exact (a - b) := by
  refine reduce_eq_exact fun hp => ?_
  subst hp
  simp only [Keeps, least, greatest] at ha hb
  rw [Word.fits_iff]
  omega

/-- Zero is a word of every machine. -/
theorem keeps_zero (p : Policy) : p.Keeps 0 := by
  cases p <;> decide

end Policy

/-! ### Wrapping around -/

namespace Word

/-- How often a word is wrapped around to fit the adder: as often as `count` is taken away. -/
def turns (w : Int) : Int :=
  (w - least) / count

theorem wrap_eq_sub_turns (w : Int) : wrap w = w - count * turns w := by
  rw [wrap, turns, least, count, Int.bmod_def]
  split <;> omega

theorem turns_eq_zero_iff {w : Int} : turns w = 0 ↔ Fits w := by
  rw [fits_iff, turns, least, count]
  omega

/-- A word that is no further from zero than `count` is wrapped around once at most. -/
theorem turns_le_one {w : Int} (hlow : -count ≤ w) (hhigh : w < count) :
    -1 ≤ turns w ∧ turns w ≤ 1 := by
  rw [count] at hlow hhigh
  rw [turns, least, count]
  omega

theorem Fits.add_bounds {a b : Int} (ha : Fits a) (hb : Fits b) :
    -count ≤ a + b ∧ a + b < count := by
  rw [fits_iff] at ha hb
  rw [count]
  omega

theorem Fits.sub_bounds {a b : Int} (ha : Fits a) (hb : Fits b) :
    -count ≤ a - b ∧ a - b < count := by
  rw [fits_iff] at ha hb
  rw [count]
  omega

end Word

namespace Policy

/-- **When the residue survives.** A turn changes the residue by 616, which has a factor of eight in
common with 1000; so it is back to what it was after 125 turns, and not before. -/
theorem reduce_decimal_eq_emod_iff (w : Int) :
    decimal.reduce w = w % 1000 ↔ 125 ∣ Word.turns w := by
  have hcount : w - Word.count * Word.turns w =
      w - 616 * Word.turns w - 1000 * (18446744073709551 * Word.turns w) := by
    rw [Word.count]
    omega
  rw [reduce, Word.wrap_eq_sub_turns, hcount, Int.sub_mul_emod_self_left]
  omega

/-- With one turn at most the residue survives exactly if there is none. -/
theorem reduce_decimal_eq_emod_iff_fits {w : Int} (h : -Word.count ≤ w ∧ w < Word.count) :
    decimal.reduce w = w % 1000 ↔ Word.Fits w := by
  have hturns := Word.turns_le_one h.1 h.2
  rw [reduce_decimal_eq_emod_iff, ← Word.turns_eq_zero_iff]
  omega

/-- A policy other than the decimal one cuts off an exact result at the ends of its range. -/
theorem reduce_eq_max_min {p : Policy} (hp : p ≠ decimal) (w : Int) :
    p.reduce w = max p.least (min p.greatest w) := by
  rw [reduce_eq_exact fun hdecimal => absurd hdecimal hp, exact_of_ne_decimal hp]
  rfl

/-- **Arithmetic is exact up to its reduction**, for any two words that fit the adder, in the range
of the policy or not. The policies other than the decimal one give the sum and the difference, cut
off at the ends of their range. What the decimal policy gives has three digits at most; it is the
residue of the sum or of the difference if that fits the adder, and otherwise it is not. -/
theorem arithmetic_exact {a b : Int} (ha : Word.Fits a) (hb : Word.Fits b) :
    (∀ p : Policy, p ≠ decimal →
      p.add a b = max p.least (min p.greatest (a + b)) ∧
        p.sub a b = max p.least (min p.greatest (a - b))) ∧
    (0 ≤ decimal.add a b ∧ decimal.add a b ≤ 999) ∧
    (0 ≤ decimal.sub a b ∧ decimal.sub a b ≤ 999) ∧
    (decimal.add a b = (a + b) % 1000 ↔ Word.Fits (a + b)) ∧
    (decimal.sub a b = (a - b) % 1000 ↔ Word.Fits (a - b)) := by
  refine ⟨fun p hp => ⟨?_, ?_⟩, reduce_decimal_bounds _, reduce_decimal_bounds _, ?_, ?_⟩
  · exact reduce_eq_max_min hp _
  · exact reduce_eq_max_min hp _
  · exact reduce_decimal_eq_emod_iff_fits (ha.add_bounds hb)
  · exact reduce_decimal_eq_emod_iff_fits (ha.sub_bounds hb)

/-- The greatest and the least word have a sum that fits and a difference that does not. Under the
decimal policy the difference, whose residue is 615, wraps around to minus one. -/
theorem arithmetic_exact_of_ends :
    let a : Int := 9223372036854775807
    let b : Int := -9223372036854775808
    Word.Fits a ∧ Word.Fits b ∧ bounded32.sub a b = 2147483647 ∧
      bounded64.sub b a = -9223372036854775808 ∧ decimal.add a b = 999 ∧
      (a - b) % 1000 = 615 ∧ decimal.sub a b ≠ 615 := by
  intro a b
  have ha : Word.Fits a := by decide
  have hb : Word.Fits b := by decide
  obtain ⟨hbounded, -, -, hadd, hsub⟩ := arithmetic_exact ha hb
  obtain ⟨hbounded', -⟩ := arithmetic_exact hb ha
  exact ⟨ha, hb, (hbounded bounded32 (by decide)).2, (hbounded' bounded64 (by decide)).2,
    hadd.2 (by decide), by decide, fun h => absurd (hsub.1 h) (by decide)⟩

end Policy

end LittleMan
