import Mathlib.Data.List.Basic
import LittleMan.Machine.Snapshot
import LittleMan.Proofs.Dump

/-!
# What a snapshot says

The text of a snapshot leaves nothing open. Its dump is plain, so that the text says which dump it
is, and the dump says which snapshot it is. A snapshot lists only those mailboxes that do not hold
zero, and that is all there is to know of memory. So two machines have the same text if, and only
if, they agree on everything that a snapshot is made from.

## Main results

* `Snapshot.dump_injective` — a snapshot is known by its dump
* `Snapshot.compact_injective` — and by its compact text
* `Machine.compact_eq_iff_agree` — the text of a machine and what it shows of the machine
-/

namespace LittleMan

/-! ### Names -/

theorem Policy.label_injective : Function.Injective Policy.label := by
  intro p q h
  cases p <;> cases q <;> first | rfl | exact absurd h (by decide)

theorem Policy.plain_label (p : Policy) : (Dump.label p.label).Plain := by
  cases p <;> exact .label (by decide)

theorem State.name_injective : Function.Injective State.name := by
  intro s t h
  cases s <;> cases t <;> first | rfl | exact absurd h (by decide)

theorem State.plain_name (s : State) : (Dump.label s.name).Plain := by
  cases s <;> exact .label (by decide)

/-! ### Lists of numbers and mailboxes -/

namespace Dump

theorem numbers_injective : Function.Injective numbers := by
  intro ms ns h
  have hnumber : Function.Injective number := fun _ _ => number.inj
  exact List.map_injective_iff.2 hnumber (list.inj h)

theorem plain_numbers (ns : List Int) : (numbers ns).Plain :=
  .list (List.forall_mem_map.2 fun n _ => .number n)

/-- A mailbox with its address. -/
def cell (c : Nat × Int) : Dump :=
  numbers [c.1, c.2]

theorem cell_injective : Function.Injective cell := by
  intro c c' h
  have hboth := numbers_injective h
  simp only [List.cons.injEq, Int.natCast_inj, and_true] at hboth
  exact Prod.ext hboth.1 hboth.2

end Dump

/-! ### Diagnostics -/

namespace Diagnostic

/-- A diagnostic is known by its dump. Kinds share their keys, and it is the label of the kind that
tells them apart. -/
theorem dump_injective : Function.Injective dump := by
  intro d e h
  cases d <;> cases e <;>
    simp only [dump, Dump.record.injEq, List.cons.injEq, Prod.mk.injEq, Dump.number.injEq,
      Dump.label.injEq, Int.natCast_inj, true_and, and_true] at h <;>
    -- two kinds have different labels, and within a kind the fields are compared
    first
    | exact absurd h.1 (by decide)
    | simp only [h]

theorem plain_dump (d : Diagnostic) : d.dump.Plain := by
  cases d with
  | unknownInstruction pc raw =>
    exact .field (by decide) (.label (by decide))
      (.field (by decide) (.number pc) (.field (by decide) (.number raw) .noFields))
  | inputStarved pc | pcOutOfBounds pc =>
    exact .field (by decide) (.label (by decide)) (.field (by decide) (.number pc) .noFields)
  | valueClamped value clamped =>
    exact .field (by decide) (.label (by decide))
      (.field (by decide) (.number value) (.field (by decide) (.number clamped) .noFields))

end Diagnostic

/-! ### Snapshots -/

namespace Snapshot

/-- A snapshot is known by its dump, field by field. -/
theorem dump_injective : Function.Injective dump := by
  intro s t h
  simp only [dump, Dump.record.injEq, List.cons.injEq, Prod.mk.injEq, Dump.number.injEq,
    Dump.label.injEq, Int.natCast_inj, true_and, and_true] at h
  obtain ⟨hpolicy, hstate, haccumulator, hpc, hcycles, hmemory, hinput, houtput, hdiagnostics⟩ := h
  have hcells : s.memory = t.memory :=
    List.map_injective_iff.2 Dump.cell_injective (Dump.list.inj hmemory)
  have hreports : s.diagnostics = t.diagnostics :=
    List.map_injective_iff.2 Diagnostic.dump_injective (Dump.list.inj hdiagnostics)
  rw [Snapshot.mk.injEq]
  exact ⟨Policy.label_injective hpolicy, State.name_injective hstate, haccumulator, hpc, hcycles,
    hcells, Dump.numbers_injective hinput, Dump.numbers_injective houtput, hreports⟩

theorem plain_dump (s : Snapshot) : s.dump.Plain := by
  have hcells : (Dump.list (s.memory.map Dump.cell)).Plain :=
    .list (List.forall_mem_map.2 fun c _ => Dump.plain_numbers _)
  have hdiagnostics : (Dump.list (s.diagnostics.map Diagnostic.dump)).Plain :=
    .list (List.forall_mem_map.2 fun d _ => d.plain_dump)
  exact .field (by decide) s.policy.plain_label (.field (by decide) s.state.plain_name
    (.field (by decide) (.number _) (.field (by decide) (.number _) (.field (by decide) (.number _)
    (.field (by decide) hcells (.field (by decide) (Dump.plain_numbers _)
    (.field (by decide) (Dump.plain_numbers _) (.field (by decide) hdiagnostics .noFields))))))))

/-- **A snapshot is known by its compact text.** -/
theorem compact_injective : Function.Injective compact := by
  intro s t h
  have htext : s.dump.compact = t.dump.compact := String.ofList_injective h
  exact dump_injective ((Dump.compact_inj s.plain_dump t.plain_dump).1 htext)

example :
    compact
      { policy := .bounded32, state := .halted, accumulator := -5, pc := 3, cycles := 3
        memory := [(0, 901), (7, -1)], input := [], output := [12, 7]
        diagnostics := [.inputStarved 2] } =
      "\x7b\"policy\":\"Bounded32\",\"state\":\"Halted\",\"accumulator\":-5,\"pc\":3,\"cycles\":3,"
        ++ "\"memory\":[[0,901],[7,-1]],\"input\":[],\"output\":[12,7],"
        ++ "\"diagnostics\":[\x7b\"kind\":\"input_starved\",\"pc\":2\x7d]\x7d" := by
  decide +kernel

end Snapshot

/-! ### Machines -/

namespace Machine

/-- What two machines have to agree on for a snapshot to show no difference between them. -/
theorem snapshot_eq_iff {m n : Machine} :
    m.snapshot = n.snapshot ↔
      m.policy = n.policy ∧ m.state = n.state ∧ m.acc = n.acc ∧ m.pc = n.pc ∧
        m.cycles = n.cycles ∧ (∀ a < 100, m.memory.get a = n.memory.get a) ∧
        m.pending = n.pending ∧ m.output = n.output ∧ m.diagnostics = n.diagnostics := by
  have hmemory : m.memory.nonZero = n.memory.nonZero ↔
      ∀ a < 100, m.memory.get a = n.memory.get a := by
    constructor
    · intro h a _
      rw [Memory.eq_of_nonZero_eq h]
    · intro h
      rw [Memory.ext_get h]
  simp only [snapshot, Snapshot.mk.injEq, hmemory, Array.toList_inj]

/-- **The exported state of a machine is unambiguous.** Two machines have the same compact text if,
and only if, they agree on policy, state, accumulator, program counter, cycles, all mailboxes, the
input that waits, the output and the diagnostics. -/
theorem compact_eq_iff_agree (m n : Machine) :
    m.snapshot.compact = n.snapshot.compact ↔
      m.policy = n.policy ∧ m.state = n.state ∧ m.acc = n.acc ∧ m.pc = n.pc ∧
        m.cycles = n.cycles ∧ (∀ a < 100, m.memory.get a = n.memory.get a) ∧
        m.pending = n.pending ∧ m.output = n.output ∧ m.diagnostics = n.diagnostics := by
  rw [← snapshot_eq_iff]
  exact Snapshot.compact_injective.eq_iff

end Machine

end LittleMan
