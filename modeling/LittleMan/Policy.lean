import LittleMan.Word

/-!
# Word policies

A policy says which words a machine keeps and how it adds and subtracts. The three decimal digits
of the classic machine form a ring: its sums wrap around at 1000. The two binary machines stop at
the ends of their ranges instead. Every policy clamps a word that comes from outside.

## Main definitions

* `Policy.least`, `Policy.greatest`, `Policy.clamp` — the range of a policy
* `Policy.add`, `Policy.sub` — arithmetic
* `Policy.isPositive` — the test of a branch on positive
-/

namespace LittleMan

/-- How a machine keeps its words and calculates with them. -/
inductive Policy
  /-- Sums are residues modulo 1000; the upper half of them counts as negative. -/
  | decimal
  /-- Words of 32 bits that stop at the ends of their range. -/
  | bounded32
  /-- Words of 64 bits that stop at the ends of their range. -/
  | bounded64
  deriving DecidableEq, Inhabited

namespace Policy

/-- The name of a policy in reports. -/
def name : Policy → String
  | decimal => "decimal"
  | bounded32 => "32-bit"
  | bounded64 => "64-bit"

/-- The label of a policy in state dumps. -/
def label : Policy → String
  | decimal => "Decimal"
  | bounded32 => "Bounded32"
  | bounded64 => "Bounded64"

/-- The least word a policy keeps. The decimal machine stores 32-bit words. -/
def least : Policy → Int
  | decimal => -0x80000000
  | bounded32 => -0x80000000
  | bounded64 => Word.least

/-- The greatest word a policy keeps. -/
def greatest : Policy → Int
  | decimal => 0x7FFFFFFF
  | bounded32 => 0x7FFFFFFF
  | bounded64 => Word.greatest

/-- The words that a policy keeps as they are. -/
def Keeps (p : Policy) (w : Int) : Prop :=
  p.least ≤ w ∧ w ≤ p.greatest

instance (p : Policy) (w : Int) : Decidable (p.Keeps w) :=
  inferInstanceAs (Decidable (_ ∧ _))

/-- The nearest word that the policy keeps. -/
def clamp (p : Policy) (w : Int) : Int :=
  Word.between p.least p.greatest w

/-- What becomes of an exact sum or difference. The adder comes first: it wraps for the decimal
machine and saturates for the others. Then the result is brought into the range of the policy. -/
def reduce : Policy → Int → Int
  | decimal, exact => Word.wrap exact % 1000
  | bounded32, exact => bounded32.clamp (Word.saturate exact)
  | bounded64, exact => bounded64.clamp (Word.saturate exact)

/-- Addition under a policy. -/
def add (p : Policy) (a b : Int) : Int :=
  p.reduce (a + b)

/-- Subtraction under a policy. -/
def sub (p : Policy) (a b : Int) : Int :=
  p.reduce (a - b)

/-- Whether a branch on positive is taken with this accumulator. -/
def isPositive (p : Policy) (acc : Int) : Bool :=
  match p with
  | decimal => decide (0 ≤ acc) && decide (acc < 500)
  | bounded32 => decide (0 ≤ acc)
  | bounded64 => decide (0 ≤ acc)

theorem least_le_greatest (p : Policy) : p.least ≤ p.greatest := by
  cases p <;> decide

theorem keeps_clamp (p : Policy) (w : Int) : p.Keeps (p.clamp w) :=
  ⟨Word.le_between _ _ _, Word.between_le p.least_le_greatest _⟩

/-- Clamping leaves alone exactly the words that the policy keeps. -/
theorem clamp_eq_self_iff {p : Policy} {w : Int} : p.clamp w = w ↔ p.Keeps w :=
  Word.between_eq_self_iff p.least_le_greatest

/-- What the decimal machine calculates has three digits at most. -/
theorem reduce_decimal_bounds (exact : Int) :
    0 ≤ decimal.reduce exact ∧ decimal.reduce exact ≤ 999 := by
  have hlow : 0 ≤ Word.wrap exact % 1000 := Int.emod_nonneg _ (by decide)
  have hhigh : Word.wrap exact % 1000 < 1000 := Int.emod_lt_of_pos _ (by decide)
  rw [reduce]
  omega

end Policy

end LittleMan
