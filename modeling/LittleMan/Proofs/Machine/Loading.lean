import LittleMan.Proofs.Checked.Machine
import LittleMan.Proofs.Machine.Rules

/-!
# What loading does

A load admits all of its words and copies those that fit. The two do not go by the same words: a
word that does not fit is dropped, but it was admitted before, so that its clamping is reported
all the same.

The rules of a load say what it leaves in each part of a machine, and determine the machine
afterwards. Loads of adjacent words put their rules together, and so a program can be loaded piece
by piece wherever it is cut. Where memory ends within the first piece or before it, nothing of the
second piece fits; where it does not, all of the first piece does. There is no third case, and that
is why the words that were written add up.

## Main definitions

* `Machine.Loads` — the rules of a load

## Main results

* `Diagnostic.clampings_eq` — the reports of admitted words are those of the words out of range
* `Machine.loads_loadAt`, `Machine.Loads.eq` — a load follows the rules, and they determine it
* `Machine.Loads.trans` — loads of adjacent words
* `Machine.loadAt_accounted` — what is loaded, what is kept, and what is reported
-/

namespace LittleMan

/-- The reports for words from outside, by the words that are out of range. -/
theorem Diagnostic.clampings_eq (p : Policy) (ws : List Int) :
    clampings p ws =
      (ws.filter fun w => ¬p.Keeps w).map fun w => valueClamped w (p.clamp w) := by
  induction ws with
  | nil => rfl
  | cons w rest ih =>
    rw [clampings, List.filterMap_cons, List.filter_cons, ← clampings, ih]
    by_cases h : p.Keeps w
    · simp [h, Policy.clamp_eq_self_iff.2 h]
    · have hclamp : p.clamp w ≠ w := fun hc => h (Policy.clamp_eq_self_iff.1 hc)
      simp [h, hclamp]

namespace Machine

/-- The rules of a load. `m.Loads start ws count next` says that loading `ws` into `m` from mailbox
`start` on ought to write `count` words and to leave `next`. -/
structure Loads (m : Machine) (start : Nat) (ws : List Int) (count : Nat) (next : Machine) :
    Prop where
  /-- Words are written up to the end of memory. There is no room beyond it. -/
  count_eq : count = min ws.length (100 - min start 100)
  /-- What is written is clamped. -/
  written : ∀ i w, i < count → ws[i]? = some w → next.memory.get (start + i) = m.policy.clamp w
  /-- The other mailboxes are kept. -/
  kept : ∀ a, a < start ∨ start + count ≤ a → next.memory.get a = m.memory.get a
  /-- Every word out of range is reported, whether it was written or not. -/
  diagnostics : next.diagnostics.toList = m.diagnostics.toList ++
    (ws.filter fun w => ¬m.policy.Keeps w).map fun w => .valueClamped w (m.policy.clamp w)
  policy : next.policy = m.policy
  registers : next.registers = m.registers
  state : next.state = m.state
  cycles : next.cycles = m.cycles
  pending : next.pending = m.pending
  output : next.output = m.output
  last : next.last = m.last
  provider : next.provider = m.provider

variable {m middle next next' : Machine} {start count count' : Nat} {ws xs ys : List Int}

/-- A load follows the rules. -/
theorem loads_loadAt (m : Machine) (start : Nat) (ws : List Int) :
    m.Loads start ws (Memory.fitting start ws.length) (m.loadAt start ws) where
  count_eq := by
    simp only [Memory.fitting, Memory.size]
    omega
  written i w hi hw := by
    simp only [Memory.fitting, Memory.size] at hi
    change (m.memory.load start (ws.map m.policy.clamp)).get (start + i) = _
    rw [Memory.get_load, if_pos (by omega), Nat.add_sub_cancel_left, List.getElem?_map, hw]
    rfl
  kept a ha := by
    simp only [Memory.fitting, Memory.size] at ha
    change (m.memory.load start (ws.map m.policy.clamp)).get a = _
    rw [Memory.get_load]
    split
    · next hin =>
      have hlength : ws.length ≤ a - start := by omega
      rw [List.getElem?_map, List.getElem?_eq_none hlength]
      rfl
    · rfl
  diagnostics := by
    change (m.diagnostics ++ Diagnostic.clampings m.policy ws).toList = _
    rw [Array.toList_appendList, Diagnostic.clampings_eq]
  policy := rfl
  registers := rfl
  state := rfl
  cycles := rfl
  pending := rfl
  output := rfl
  last := rfl
  provider := rfl

/-- **The rules determine the machine after a load.** -/
theorem Loads.eq (h : m.Loads start ws count next) (h' : m.Loads start ws count' next') :
    count = count' ∧ next = next' := by
  have hcount : count = count' := h.count_eq.trans h'.count_eq.symm
  subst hcount
  refine ⟨rfl, ext_parts (h.policy.trans h'.policy.symm) ?_ ?_ (fun a => ?_)
    (h.state.trans h'.state.symm) (h.pending.trans h'.pending.symm) ?_
    (h.provider.trans h'.provider.symm) (h.diagnostics.trans h'.diagnostics.symm)
    (h.cycles.trans h'.cycles.symm) (h.last.trans h'.last.symm)⟩
  · exact congrArg Registers.acc (h.registers.trans h'.registers.symm)
  · exact congrArg Registers.pc (h.registers.trans h'.registers.symm)
  · by_cases ha : a < start ∨ start + count ≤ a
    · rw [h.kept a ha, h'.kept a ha]
    · -- the mailbox lies in the part that was written
      have hi : a - start < count := by omega
      have hlt : a - start < ws.length := by
        have := h.count_eq
        omega
      have hw : ws[a - start]? = some ws[a - start] := List.getElem?_eq_getElem hlt
      have haddress : start + (a - start) = a := by omega
      rw [← haddress, h.written _ _ hi hw, h'.written _ _ hi hw]
  · rw [h.output, h'.output]

/-- **Loads of adjacent words** put together. -/
theorem Loads.trans (h : m.Loads start xs count middle)
    (h' : middle.Loads (start + xs.length) ys count' next) :
    m.Loads start (xs ++ ys) (count + count') next := by
  have hcount := h.count_eq
  have hcount' := h'.count_eq
  -- nothing of the second piece fits, or all of the first piece does
  have hcases : count' = 0 ∨ count = xs.length := by omega
  constructor
  case count_eq =>
    rw [List.length_append]
    omega
  case written =>
    intro i w hi hw
    by_cases hx : i < xs.length
    · rw [List.getElem?_append_left hx] at hw
      rw [h'.kept _ (.inl (by omega)), h.written i w (by omega) hw]
    · have haddress : start + i = start + xs.length + (i - xs.length) := by omega
      rw [List.getElem?_append_right (Nat.le_of_not_lt hx)] at hw
      rw [haddress, h'.written _ w (by omega) hw, h.policy]
  case kept =>
    intro a ha
    rw [h'.kept a (by omega), h.kept a (by omega)]
  case diagnostics =>
    rw [h'.diagnostics, h.diagnostics, h.policy, List.filter_append, List.map_append,
      List.append_assoc]
  case policy => exact h'.policy.trans h.policy
  case registers => exact h'.registers.trans h.registers
  case state => exact h'.state.trans h.state
  case cycles => exact h'.cycles.trans h.cycles
  case pending => exact h'.pending.trans h.pending
  case output => exact h'.output.trans h.output
  case last => exact h'.last.trans h.last
  case provider => exact h'.provider.trans h.provider

/-- **Loading writes exactly what fits, and reports everything.** Wherever a load starts and
however many words there are, it comes back with all its slices in bounds, and its answer and the
machine afterwards are the ones that the rules allow. The words can be loaded in two pieces instead,
cut anywhere: that leaves the same machine, and the numbers of words that were written add up. -/
theorem loadAt_accounted (m : Machine) (start : Nat) (ws : List Int) :
    (∃ count next, (Operation.loadAt start ws).perform m = (.written count, next) ∧
      m.loadAtChecked start ws = .ok (count, next)) ∧
    (∀ count next, (Operation.loadAt start ws).perform m = (.written count, next) ↔
      m.Loads start ws count next) ∧
    ∀ xs ys, ws = xs ++ ys →
      ∃ count middle count' last,
        (Operation.loadAt start xs).perform m = (.written count, middle) ∧
        (Operation.loadAt (start + xs.length) ys).perform middle = (.written count', last) ∧
        (Operation.loadAt start ws).perform m = (.written (count + count'), last) := by
  have hperform (count : Nat) (next : Machine) :
      (Operation.loadAt start ws).perform m = (.written count, next) ↔
        m.Loads start ws count next := by
    constructor
    · intro h
      cases h
      exact loads_loadAt m start ws
    · intro h
      obtain ⟨rfl, rfl⟩ := h.eq (loads_loadAt m start ws)
      rfl
  refine ⟨⟨_, _, rfl, loadAtChecked_eq m start ws⟩, hperform, ?_⟩
  rintro xs ys rfl
  have hpieces := (loads_loadAt m start xs).trans (loads_loadAt _ (start + xs.length) ys)
  exact ⟨_, _, _, _, rfl, rfl, (hperform _ _).2 hpieces⟩

/-- Four words of which two fit, loaded in two pieces that are cut where memory ends. Of the two
that are dropped one is out of range, and it is reported. -/
theorem loadAt_accounted_of_end :
    let m := new .bounded32
    let next := m.loadAt 98 [0x80000000, 7, -0x80000001, 8]
    m.Loads 98 [0x80000000, 7, -0x80000001, 8] 2 next ∧
      next.memory.get 98 = 0x7FFFFFFF ∧ next.memory.get 99 = 7 ∧
      next.diagnostics.toList =
        [.valueClamped 0x80000000 0x7FFFFFFF, .valueClamped (-0x80000001) (-0x80000000)] ∧
      ∃ middle, (Operation.loadAt 98 [0x80000000, 7]).perform m = (.written 2, middle) ∧
        (Operation.loadAt 100 [-0x80000001, 8]).perform middle = (.written 0, next) := by
  intro m next
  obtain ⟨-, hrules, hpieces⟩ := loadAt_accounted m 98 [0x80000000, 7, -0x80000001, 8]
  have hloads : m.Loads 98 [0x80000000, 7, -0x80000001, 8] 2 next := (hrules 2 next).1 rfl
  obtain ⟨count, middle, count', last, hfirst, hsecond, hwhole⟩ :=
    hpieces [0x80000000, 7] [-0x80000001, 8] rfl
  cases hfirst
  have hcount : Answer.written 0 = .written count' := congrArg Prod.fst hsecond
  cases hcount
  have hlast : next = last := congrArg Prod.snd hwhole
  rw [← hlast] at hsecond
  exact ⟨hloads, hloads.written 0 _ (by decide) rfl, hloads.written 1 _ (by decide) rfl,
    hloads.diagnostics, _, rfl, hsecond⟩

end Machine

end LittleMan
