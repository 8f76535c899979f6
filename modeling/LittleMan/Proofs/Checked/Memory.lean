import LittleMan.Memory

/-!
# Checked arithmetic and memory

Counts are kept in 64 bits, and mailboxes and slices have bounds. A computation that respects all of
that can be carried out with every sum, difference, slice and address checked, and gives what it
gives without the checks. Where a check fails, the checked computation ends with a trap.

This is the layer of memory. A load computes slices from where it starts and from how much fits, and
a range computes its end. Neither traps, wherever it starts and however long it is.

## Main definitions

* `Trap` — the check that failed
* `Checked.sum`, `Checked.difference`, `Checked.slice` — arithmetic and slices with checks
* `Memory.readChecked`, `Memory.writeChecked`, `Memory.loadChecked`, `Memory.rangeChecked` — the
  operations on memory with checks

## Main results

* `Memory.readChecked_eq`, `Memory.writeChecked_eq` — mailboxes can be read and written
* `Memory.loadChecked_eq`, `Memory.rangeChecked_eq` — a load and a range never trap
-/

namespace LittleMan

/-- A check that failed. -/
inductive Trap
  /-- A mailbox beyond the last one was read or written. -/
  | address (e : BadAddress)
  /-- A slice from `first` up to `past` was taken of `length` words. -/
  | slice (first past length : Nat)
  /-- So many words were copied over another number of words. -/
  | copy (words cells : Nat)
  /-- The sum of two counts is no count. -/
  | sum (a b : Nat)
  /-- The difference of two counts is no count. -/
  | difference (a b : Nat)
  deriving DecidableEq

namespace Checked

/-- The sum of two counts. -/
def sum (a b : Nat) : Except Trap Nat :=
  if a + b ≤ Numeral.greatestCount then .ok (a + b) else .error (.sum a b)

/-- The difference of two counts. -/
def difference (a b : Nat) : Except Trap Nat :=
  if b ≤ a then .ok (a - b) else .error (.difference a b)

/-- The words from place `first` on, up to but without place `past`. -/
def slice (ws : List Int) (first past : Nat) : Except Trap (List Int) :=
  if first ≤ past ∧ past ≤ ws.length then .ok ((ws.take past).drop first)
  else .error (.slice first past ws.length)

theorem sum_eq {a b : Nat} (h : a + b ≤ Numeral.greatestCount) : sum a b = .ok (a + b) :=
  if_pos h

theorem difference_eq {a b : Nat} (h : b ≤ a) : difference a b = .ok (a - b) :=
  if_pos h

theorem slice_eq {ws : List Int} {first past : Nat} (hfirst : first ≤ past)
    (hpast : past ≤ ws.length) : slice ws first past = .ok ((ws.take past).drop first) :=
  if_pos ⟨hfirst, hpast⟩

/-- Checks that pass for every item of a list pass for the list. -/
theorem mapM_eq {α β : Type} {f : α → Except Trap β} {g : α → β} {xs : List α}
    (h : ∀ x ∈ xs, f x = .ok (g x)) : xs.mapM f = .ok (xs.map g) := by
  induction xs with
  | nil => rfl
  | cons x xs ih =>
    obtain ⟨hx, hxs⟩ := List.forall_mem_cons.1 h
    rw [List.mapM_cons, hx, ih hxs]
    rfl

end Checked

namespace Memory

/-- The word in a mailbox. -/
def readChecked (m : Memory) (a : Nat) : Except Trap Int :=
  (m.read a).mapError .address

/-- The memory after writing a word. -/
def writeChecked (m : Memory) (a : Nat) (w : Int) : Except Trap Memory :=
  (m.write a w).mapError .address

/-- The memory after copying words over as many mailboxes from `start` on. -/
def copyChecked (m : Memory) (start : Nat) (words cells : List Int) : Except Trap Memory :=
  if words.length = cells.length then .ok (m.load start words)
  else .error (.copy words.length cells.length)

/-- How many words were written, and the memory after copying words in from mailbox `start` on. The
slice of memory begins no later than memory ends, and both slices are as long as there are words
that fit. -/
def loadChecked (m : Memory) (start : Nat) (ws : List Int) : Except Trap (Nat × Memory) := do
  let count := fitting start ws.length
  let behind ← Checked.slice m.toList (min start size) size
  let cells ← Checked.slice behind 0 count
  let words ← Checked.slice ws 0 count
  let next ← m.copyChecked (min start size) words cells
  return (count, next)

/-- The mailboxes from `first` to `last`, both included, with their addresses. -/
def rangeChecked (m : Memory) (first last : Nat) : Except Trap (List (Nat × Int)) := do
  let past ← Checked.sum (min last (size - 1)) 1
  return (m.addressed.drop first).take (past - first)

theorem readChecked_eq (m : Memory) {a : Nat} (h : a < 100) : m.readChecked a = .ok (m.get a) := by
  rw [readChecked, read, get?_eq_some_get h]
  rfl

theorem writeChecked_eq (m : Memory) {a : Nat} (h : a < 100) (w : Int) :
    m.writeChecked a w = .ok (m.set a w) := by
  have hwrite : m.write a w = .ok (m.set a w) := if_pos h
  rw [writeChecked, hwrite]
  rfl

/-- Words that do not fit make no difference to a load, nor does a start beyond the end. -/
theorem load_take_fitting (m : Memory) (start : Nat) (ws : List Int) :
    m.load (min start size) (ws.take (fitting start ws.length)) = m.load start ws := by
  refine ext_get fun a ha => ?_
  rw [get_load, get_load]
  by_cases hstart : start ≤ a
  · have hmin : min start size = start := Nat.min_eq_left (by simp only [size]; omega)
    rw [hmin, if_pos ⟨hstart, ha⟩, if_pos ⟨hstart, ha⟩]
    by_cases hword : a - start < ws.length
    · rw [List.getElem?_take_of_lt (by simp only [fitting, size]; omega)]
    · have hlength : (ws.take (fitting start ws.length)).length ≤ a - start := by
        rw [List.length_take]
        omega
      rw [List.getElem?_eq_none hlength, List.getElem?_eq_none (Nat.not_lt.1 hword)]
  · rw [if_neg (by simp only [size]; omega), if_neg (by omega)]

/-- **A load never traps**, wherever it starts and however many words there are. -/
theorem loadChecked_eq (m : Memory) (start : Nat) (ws : List Int) :
    m.loadChecked start ws = .ok (fitting start ws.length, m.load start ws) := by
  have hlength : m.toList.length = size := by simp [toList, size]
  have hfits : fitting start ws.length ≤ size - min start size := by
    simp only [fitting, size]
    omega
  have hcount : fitting start ws.length ≤ ws.length := Nat.min_le_left _ _
  have hbehind : ((m.toList.take size).drop (min start size)).length = size - min start size := by
    rw [List.length_drop, List.length_take, hlength, Nat.min_self]
  rw [loadChecked, Checked.slice_eq (Nat.min_le_right _ _) (Nat.le_of_eq hlength.symm)]
  change (Checked.slice _ 0 _ >>= _) = _
  rw [Checked.slice_eq (Nat.zero_le _) (hbehind ▸ hfits)]
  change (Checked.slice ws 0 _ >>= _) = _
  rw [Checked.slice_eq (Nat.zero_le _) hcount]
  change (copyChecked m _ _ _ >>= _) = _
  rw [copyChecked, if_pos, List.drop_zero, load_take_fitting]
  · rfl
  · rw [List.drop_zero, List.drop_zero, List.length_take, List.length_take, hbehind]
    omega

/-- **A range never traps**, whatever its ends are. -/
theorem rangeChecked_eq (m : Memory) (first last : Nat) :
    m.rangeChecked first last = .ok (m.range first last) := by
  have hpast : min last (size - 1) + 1 ≤ Numeral.greatestCount := by
    simp only [size, Numeral.greatestCount]
    omega
  rw [rangeChecked, Checked.sum_eq hpast]
  rfl

end Memory

end LittleMan
