import LittleMan.Policy

/-!
# Diagnostics

What a machine reports about itself. All but one of these conditions are harmless to the run: a
program counter that left memory stops the machine.

## Main definitions

* `Diagnostic`, `Diagnostic.text`, `Diagnostic.isFatal`
* `Diagnostic.clampings` — what is reported when words from outside are brought into range
-/

namespace LittleMan

/-- A condition that a machine reports. -/
inductive Diagnostic
  /-- The word at `pc` is no instruction; it was passed over. -/
  | unknownInstruction (pc : Nat) (raw : Int)
  /-- The input instruction at `pc` found nothing to read. -/
  | inputStarved (pc : Nat)
  /-- The program counter left memory. -/
  | pcOutOfBounds (pc : Nat)
  /-- A word from outside was out of range. -/
  | valueClamped (value clamped : Int)
  deriving DecidableEq, Inhabited

namespace Diagnostic

/-- Whether the condition stopped the machine. -/
def isFatal : Diagnostic → Bool
  | pcOutOfBounds _ => true
  | _ => false

/-- The wording of a diagnostic. -/
def text : Diagnostic → String
  | unknownInstruction pc raw =>
    "unknown instruction " ++ Numeral.wide 3 raw ++ " at " ++ Numeral.wide 2 pc
  | inputStarved pc => "no input available for INP at " ++ Numeral.wide 2 pc
  | pcOutOfBounds pc => "program counter out of bounds: " ++ Numeral.plain pc
  | valueClamped value clamped =>
    "value " ++ Numeral.plain value ++ " does not fit the word, clamped to "
      ++ Numeral.plain clamped

/-- The reports for words from outside, in order: one for each word that the policy does not keep
as it is. -/
def clampings (p : Policy) (ws : List Int) : List Diagnostic :=
  ws.filterMap fun w => if p.clamp w = w then none else some (valueClamped w (p.clamp w))

@[simp] theorem clampings_nil (p : Policy) : clampings p [] = [] := rfl

@[simp] theorem clampings_append (p : Policy) (vs ws : List Int) :
    clampings p (vs ++ ws) = clampings p vs ++ clampings p ws := by
  simp [clampings]

/-- What is reported for words from outside: the words that the policy does not keep. -/
theorem mem_clampings {p : Policy} {ws : List Int} {d : Diagnostic} :
    d ∈ clampings p ws ↔ ∃ w ∈ ws, p.clamp w ≠ w ∧ d = valueClamped w (p.clamp w) := by
  simp only [clampings, List.mem_filterMap]
  refine exists_congr fun w => and_congr_right fun _ => ?_
  by_cases h : p.clamp w = w <;> simp [h, eq_comm]

theorem filter_clampings {kind : Diagnostic → Bool}
    (hkind : ∀ value clamped, kind (valueClamped value clamped) = false) (p : Policy)
    (ws : List Int) : (clampings p ws).filter kind = [] := by
  rw [List.filter_eq_nil_iff]
  intro d hd
  obtain ⟨w, -, -, rfl⟩ := mem_clampings.1 hd
  rw [hkind]
  exact Bool.false_ne_true

/-- Reports of clamping do not count among diagnostics of any other kind. -/
theorem filter_append_clampings {kind : Diagnostic → Bool}
    (hkind : ∀ value clamped, kind (valueClamped value clamped) = false) (ds : Array Diagnostic)
    (p : Policy) (ws : List Int) :
    (ds ++ clampings p ws).toList.filter kind = ds.toList.filter kind := by
  rw [Array.toList_appendList, List.filter_append, filter_clampings hkind, List.append_nil]

/-- Words in range pass without a report. -/
theorem clampings_eq_nil {p : Policy} {ws : List Int} (h : ∀ w ∈ ws, p.Keeps w) :
    clampings p ws = [] := by
  simp only [clampings, List.filterMap_eq_nil_iff]
  intro w hw
  simp [Policy.clamp_eq_self_iff.2 (h w hw)]

end Diagnostic

end LittleMan
