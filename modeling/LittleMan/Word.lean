import LittleMan.Text.Numeral

/-!
# Words

A word is an integer, of type `Int` throughout. The computer's adder is 64 bits wide: a word
*fits* the adder when it lies in the signed 64-bit range, and a result outside that range either
wraps around or stops at the nearer end, whichever the policy of the machine asks for. Words are
exact everywhere else, so bounds are not part of a type but hypotheses of the theorems that need
them.

## Main definitions

* `Word.Fits` — the range of the adder
* `Word.wrap`, `Word.saturate` — the two ways to bring a result back into it
* `Word.read` — a word from its numeral
-/

namespace LittleMan

namespace Word

/-- The least word that fits the adder. -/
def least : Int := -0x8000000000000000

/-- The greatest word that fits the adder. -/
def greatest : Int := 0x7FFFFFFFFFFFFFFF

/-- A word fits the adder when it lies in the signed 64-bit range. -/
def Fits (w : Int) : Prop :=
  least ≤ w ∧ w ≤ greatest

instance (w : Int) : Decidable (Fits w) :=
  inferInstanceAs (Decidable (_ ∧ _))

/-- How many words fit the adder, which is `2 ^ 64`. -/
def count : Nat := 0x10000000000000000

/-- The word that fits the adder and differs from `w` by a multiple of `count`. -/
def wrap (w : Int) : Int :=
  w.bmod count

/-- The word nearest to `w` between two bounds. -/
def between (low high w : Int) : Int :=
  max low (min high w)

/-- The word nearest to `w` that fits the adder. -/
def saturate (w : Int) : Int :=
  between least greatest w

/-- The word that a numeral stands for, if it fits the adder. -/
def read (s : List Char) : Except Numeral.Fault Int :=
  Numeral.readSigned least greatest s

theorem fits_iff {w : Int} :
    Fits w ↔ -9223372036854775808 ≤ w ∧ w ≤ 9223372036854775807 := by
  simp [Fits, least, greatest]

theorem fits_wrap (w : Int) : Fits (wrap w) := by
  rw [fits_iff, wrap, count]
  constructor
  · have := Int.le_bmod (x := w) (m := 0x10000000000000000) (by decide)
    omega
  · have := Int.bmod_lt (x := w) (m := 0x10000000000000000) (by decide)
    omega

/-- Wrapping leaves alone exactly the words that fit. -/
theorem wrap_eq_self_iff {w : Int} : wrap w = w ↔ Fits w := by
  constructor
  · intro h
    rw [← h]
    exact fits_wrap w
  · intro h
    rw [fits_iff] at h
    rw [wrap, count, Int.bmod_def]
    split <;> omega

theorem between_eq_self_iff {low high w : Int} (h : low ≤ high) :
    between low high w = w ↔ low ≤ w ∧ w ≤ high := by
  simp only [between]
  omega

theorem le_between (low high w : Int) : low ≤ between low high w := by
  simp only [between]
  omega

theorem between_le {low high : Int} (h : low ≤ high) (w : Int) : between low high w ≤ high := by
  simp only [between]
  omega

end Word

end LittleMan
