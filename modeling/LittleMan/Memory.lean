import LittleMan.Text.Numeral

/-!
# Mailboxes

The memory of the computer: one hundred mailboxes, each holding a word. The number of mailboxes is
part of the type. Reading and writing come in two forms. The plain forms `get` and `set` are total:
beyond the last mailbox one reads zero and writes nothing. The checked forms `read` and `write`
refuse such an address and say so.

## Main definitions

* `Memory.get`, `Memory.set` — reading and writing, total
* `Memory.read`, `Memory.write`, `Memory.get?` — the same, refusing addresses beyond 99
* `Memory.load` — copying words in, dropping what passes the last mailbox
* `Memory.addressed`, `Memory.nonZero`, `Memory.range` — mailboxes listed with their addresses

## Main results

* `Memory.get_set`, `Memory.get_load` — what is read after writing and after loading
* `Memory.ext_get` — a memory is known by what is read from its mailboxes
* `Memory.eq_of_nonZero_eq` — and by the mailboxes that do not hold zero
* `Memory.load_toList` — loading all the mailboxes of another memory makes it that memory
-/

namespace LittleMan

/-- One hundred mailboxes. -/
structure Memory where
  /-- The words in the mailboxes, by address. -/
  cells : Vector Int 100
  deriving DecidableEq

/-- An address beyond the last mailbox. -/
structure BadAddress where
  /-- The address that was asked for. -/
  address : Nat
  deriving DecidableEq

/-- The wording of a refused address. -/
def BadAddress.message (e : BadAddress) : String :=
  "Memory address " ++ Numeral.plain e.address ++ " out of range (0-99)"

namespace Memory

/-- The number of mailboxes. -/
def size : Nat := 100

/-- The memory with zero in every mailbox. -/
def empty : Memory :=
  ⟨Vector.replicate 100 0⟩

instance : Inhabited Memory := ⟨empty⟩

/-- The word in a mailbox, if there is such a mailbox. -/
def get? (m : Memory) (a : Nat) : Option Int :=
  m.cells[a]?

/-- The word in a mailbox, and zero beyond the last one. -/
def get (m : Memory) (a : Nat) : Int :=
  (m.get? a).getD 0

/-- The memory after writing a word into a mailbox. Beyond the last one nothing is written. -/
def set (m : Memory) (a : Nat) (w : Int) : Memory :=
  ⟨m.cells.setIfInBounds a w⟩

/-- The word in a mailbox, refusing addresses beyond 99. -/
def read (m : Memory) (a : Nat) : Except BadAddress Int :=
  match m.get? a with
  | some w => .ok w
  | none => .error ⟨a⟩

/-- The memory after writing a word, refusing addresses beyond 99. -/
def write (m : Memory) (a : Nat) (w : Int) : Except BadAddress Memory :=
  if a < size then .ok (m.set a w) else .error ⟨a⟩

/-- How many of `count` words fit between mailbox `start` and the end of memory. -/
def fitting (start count : Nat) : Nat :=
  min count (size - start)

/-- Copy words in from mailbox `start` on. Words that pass mailbox 99 are dropped. -/
def load (m : Memory) (start : Nat) (ws : List Int) : Memory :=
  let words := ws.toArray
  ⟨Vector.ofFn fun i : Fin 100 =>
    if start ≤ i then (words[i.val - start]?).getD m.cells[i] else m.cells[i]⟩

/-- All mailboxes in order of address. -/
def toList (m : Memory) : List Int :=
  m.cells.toList

/-- Every mailbox with its address, in order. -/
def addressed (m : Memory) : List (Nat × Int) :=
  (List.range size).map fun a => (a, m.get a)

/-- The mailboxes that do not hold zero, with their addresses, in order. -/
def nonZero (m : Memory) : List (Nat × Int) :=
  m.addressed.filter fun cell => cell.2 ≠ 0

/-- The mailboxes from `first` to `last`, both included, with their addresses. A range that reaches
beyond mailbox 99 is cut there. -/
def range (m : Memory) (first last : Nat) : List (Nat × Int) :=
  (m.addressed.drop first).take (min last (size - 1) + 1 - first)

/-- The summary of a memory that descriptions of a machine show. -/
def describe (m : Memory) : String :=
  "Memory \x7b non_zero_cells: " ++ Numeral.plain m.nonZero.length ++ ", total_cells: "
    ++ Numeral.plain size ++ " \x7d"

theorem get?_eq_some_get {m : Memory} {a : Nat} (h : a < 100) : m.get? a = some (m.get a) := by
  simp [get, get?, h]

theorem get?_eq_none_iff {m : Memory} {a : Nat} : m.get? a = none ↔ 100 ≤ a := by
  simp [get?]

theorem get_of_le {m : Memory} {a : Nat} (h : 100 ≤ a) : m.get a = 0 := by
  simp [get, get?_eq_none_iff.2 h]

@[simp] theorem get_empty (a : Nat) : empty.get a = 0 := by
  by_cases h : a < 100
  · simp [get, get?, empty, h]
  · exact get_of_le (by omega)

/-- Reading after writing: the word written at its address, the old word elsewhere. -/
theorem get_set (m : Memory) (a b : Nat) (w : Int) :
    (m.set a w).get b = if a = b ∧ a < 100 then w else m.get b := by
  by_cases hb : b < 100
  · by_cases hab : a = b
    · subst hab
      simp [get, get?, set, hb]
    · simp [get, get?, set, hab]
  · have : ¬(a = b ∧ a < 100) := fun h => hb (h.1 ▸ h.2)
    rw [get_of_le (by omega), get_of_le (by omega), if_neg this]

/-- Reading after loading: the words loaded from `start` on, the old words elsewhere. -/
theorem get_load (m : Memory) (start : Nat) (ws : List Int) (a : Nat) :
    (m.load start ws).get a =
      if start ≤ a ∧ a < 100 then (ws[a - start]?).getD (m.get a) else m.get a := by
  by_cases ha : a < 100
  · by_cases hs : start ≤ a <;> simp [get, get?, load, ha, hs]
  · rw [get_of_le (by omega), get_of_le (by omega), if_neg (by omega)]

-- unfolding `load` lays out all the mailboxes, and `get_load` says what there is to know about it
attribute [irreducible] load

/-- The list of all mailboxes has the words that are read from them. -/
theorem mem_toList {m : Memory} {w : Int} : w ∈ m.toList ↔ ∃ a < 100, m.get a = w := by
  rw [toList, Vector.mem_toList_iff, Vector.mem_iff_getElem]
  constructor
  · rintro ⟨a, ha, rfl⟩
    exact ⟨a, ha, by simp [get, get?, ha]⟩
  · rintro ⟨a, ha, rfl⟩
    exact ⟨a, ha, by simp [get, get?, ha]⟩

/-- A memory is known by what is read from its mailboxes. -/
theorem ext_get {m n : Memory} (h : ∀ a, a < 100 → m.get a = n.get a) : m = n := by
  have hcells : m.cells = n.cells := by
    apply Vector.ext
    intro i hi
    have := h i hi
    simpa [get, get?, hi] using this
  cases m
  cases n
  simp_all

/-- The words listed with their addresses are those that are read from the mailboxes. -/
theorem mem_nonZero {m : Memory} {a : Nat} {w : Int} :
    (a, w) ∈ m.nonZero ↔ a < 100 ∧ m.get a = w ∧ w ≠ 0 := by
  simp only [nonZero, addressed, size, List.mem_filter, List.mem_map, List.mem_range,
    Prod.mk.injEq, decide_eq_true_eq]
  constructor
  · rintro ⟨⟨_, ha, rfl, hw⟩, hne⟩
    exact ⟨ha, hw, hne⟩
  · rintro ⟨ha, hw, hne⟩
    exact ⟨⟨a, ha, rfl, hw⟩, hne⟩

/-- A mailbox that is not listed holds zero, so that the list leaves nothing open. -/
theorem eq_of_nonZero_eq {m n : Memory} (h : m.nonZero = n.nonZero) : m = n := by
  refine ext_get fun a ha => ?_
  by_cases hm : m.get a = 0
  · by_cases hn : n.get a = 0
    · rw [hm, hn]
    · have hmem : (a, n.get a) ∈ m.nonZero := h ▸ mem_nonZero.2 ⟨ha, rfl, hn⟩
      exact (mem_nonZero.1 hmem).2.1
  · have hmem : (a, m.get a) ∈ n.nonZero := h ▸ mem_nonZero.2 ⟨ha, rfl, hm⟩
    exact (mem_nonZero.1 hmem).2.1.symm

theorem getElem?_toList (m : Memory) (a : Nat) : m.toList[a]? = m.get? a := by
  simp [toList, get?]

/-- Loading all the mailboxes of another memory makes it that memory. -/
theorem load_toList (m n : Memory) : m.load 0 n.toList = n := by
  refine ext_get fun a ha => ?_
  rw [get_load, if_pos ⟨Nat.zero_le a, ha⟩, Nat.sub_zero, getElem?_toList,
    get?_eq_some_get ha, Option.getD_some]

end Memory

end LittleMan
