import LittleMan.Proofs.Debugger
import LittleMan.Proofs.Machine.Ledger

/-!
# The listing marks what comes next

The listing of a debugger is a window on memory, with the program counter in its middle. Near either
end of memory the window is moved so that it stays within, and it never loses the counter on the
way. So the listing marks one line, unless it has no lines or the counter has left memory.

What a step carries out is what the word at the counter reads as, and an instruction reports one
condition at most. So the line that was marked tells what the status will say, unless a condition is
reported, and then the status tells that one.

## Main definitions

* `Debugger.marked` — the lines of a listing that the program counter points to
* `Numeral.twoDigits` — a mailbox as the status writes it

## Main results

* `Debugger.map_address_listing`, `Debugger.listingStart_add_le` — the window, and where it ends
* `Debugger.marked_of_pc_lt` — the window holds the counter
* `Debugger.step_of_follows` — a step of a debugger by the rules of the instruction
* `Debugger.Reached.listing_marks_next` — the listing marks what the next step carries out
-/

namespace LittleMan

/-! ### Mailboxes in two digits -/

namespace Numeral

/-- The two digits of a mailbox. -/
def twoDigits (a : Nat) : String :=
  String.ofList [Nat.digitChar (a / 10), Nat.digitChar (a % 10)]

theorem wide_two {a : Nat} (ha : a < 100) : wide 2 a = twoDigits a := by
  have hpadded : ∀ a < 100, padded 2 (a : Nat) = [Nat.digitChar (a / 10), Nat.digitChar (a % 10)] :=
    by decide
  rw [wide, hpadded a ha, twoDigits]

end Numeral

namespace Debugger

/-! ### The window -/

variable (d : Debugger) (count : Nat)

/-- The window stays within memory. -/
theorem listingStart_add_le : d.listingStart count + min count 100 ≤ 100 := by
  simp only [listingStart, Memory.size]
  omega

/-- The window in one equation. -/
theorem listing_eq :
    d.listing count = (List.range' (d.listingStart count) (min count 100)).map fun a =>
      ⟨a, Listing.assembly (d.machine.memory.get a), a = d.machine.pc⟩ := by
  have hend := d.listingStart_add_le count
  have hlength : min (d.listingStart count + count) Memory.size - d.listingStart count =
      min count 100 := by
    simp only [Memory.size]
    omega
  rw [listing, hlength]

/-- A listing shows mailboxes that follow one another. -/
theorem map_address_listing :
    (d.listing count).map ListingRow.address =
      List.range' (d.listingStart count) (min count 100) := by
  rw [listing_eq, List.map_map]
  exact List.map_id _

/-- Each line shows what its mailbox holds. -/
theorem text_of_mem_listing {row : ListingRow} (h : row ∈ d.listing count) :
    row.text = Listing.assembly (d.machine.memory.get row.address) := by
  obtain ⟨a, -, rfl⟩ := List.mem_map.1 h
  rfl

/-- The lines of a listing that the program counter points to. -/
def marked : List ListingRow :=
  (d.listing count).filter ListingRow.isCurrent

/-- A line is marked for each time that the counter is in the window. -/
theorem marked_eq :
    d.marked count =
      List.replicate
        ((List.range' (d.listingStart count) (min count 100)).count d.machine.pc)
        ⟨d.machine.pc, Listing.assembly (d.machine.memory.get d.machine.pc), true⟩ := by
  have hcurrent : (ListingRow.isCurrent ∘ fun a =>
      ⟨a, Listing.assembly (d.machine.memory.get a), a = d.machine.pc⟩) =
        fun a => decide (a = d.machine.pc) := rfl
  rw [marked, listing_eq, List.filter_map, hcurrent, List.filter_eq, List.map_replicate,
    decide_eq_true rfl]

variable {d count}

/-- The window holds the counter, wherever in memory that is. One line is marked, then. -/
theorem marked_of_pc_lt (hcount : 0 < count) (hpc : d.machine.pc < 100) :
    d.marked count =
      [⟨d.machine.pc, Listing.assembly (d.machine.memory.get d.machine.pc), true⟩] := by
  have hwindow : d.listingStart count ≤ d.machine.pc ∧
      d.machine.pc < d.listingStart count + min count 100 := by
    simp only [listingStart, Memory.size]
    omega
  have honce : (List.range' (d.listingStart count) (min count 100)).count d.machine.pc = 1 :=
    List.count_eq_one_of_mem List.nodup_range' (List.mem_range'_1.2 hwindow)
  rw [marked_eq, honce]
  rfl

theorem marked_of_le_pc (hpc : 100 ≤ d.machine.pc) : d.marked count = [] := by
  have hnever : (List.range' (d.listingStart count) (min count 100)).count d.machine.pc = 0 := by
    rw [List.count_eq_zero, List.mem_range'_1]
    have hend := d.listingStart_add_le count
    omega
  rw [marked_eq, hnever]
  rfl

/-! ### The status -/

/-- The status after an instruction: what it reported, or else the instruction itself. -/
def statusAfter (m : Machine) (i : Instruction) : Status :=
  match m.reported i with
  | condition :: _ => .reported m.pc condition
  | [] => .stepped m.pc i

/-- A step that follows the rules of an instruction shows what came of it. -/
theorem step_of_follows {i : Instruction} {next : Machine} (hm : d.machine.state = .running)
    (hs : d.machine.step = (.ok i, next)) (hn : d.machine.Follows i next) :
    d.step = { d with machine := next, status := statusAfter d.machine i } := by
  have hnew : next.diagnostics[d.machine.diagnostics.size]? = (d.machine.reported i)[0]? := by
    rw [← Array.getElem?_toList, hn.diagnostics, ← Array.length_toList,
      List.getElem?_append_right (Nat.le_refl _), Nat.sub_self]
  rw [step, if_pos (Machine.isRunning_iff.2 hm), hs]
  simp only [hnew, statusAfter]
  cases d.machine.reported i <;> rfl

/-- A step of a debugger whose machine has its counter past memory. -/
theorem step_of_le_pc (hm : d.machine.state = .running) (hpc : 100 ≤ d.machine.pc) :
    d.step =
      { d with
        machine := d.machine.fault
        status := .failed (.pcOutOfBounds d.machine.pc)
        running := false } := by
  rw [step, if_pos (Machine.isRunning_iff.2 hm), Machine.step_of_le_pc hm hpc]

/-- **The listing marks what comes next.** Whatever was done to a debugger, its listing shows as
many mailboxes as asked for, up to all of memory, one after the other, with what they hold now. It
marks the one that the program counter points to, if that is a mailbox. If the machine runs, the
line that is marked is the assembly text of the instruction that the next step carries out, and the
status shows it next to its mailbox, or else the one condition that was reported. With the counter
past memory nothing is marked, and the next step ends the run with an error. -/
theorem Reached.listing_marks_next {m : Machine} (hm : m.Reachable) (hd : Reached m d) :
    (∀ count,
      (∃ first, first + min count 100 ≤ 100 ∧
        (d.listing count).map ListingRow.address = List.range' first (min count 100)) ∧
      (∀ row ∈ d.listing count,
        row.text = Listing.assembly (d.machine.memory.get row.address)) ∧
      (0 < count → d.machine.pc < 100 →
        d.marked count =
          [⟨d.machine.pc, Listing.assembly (d.machine.memory.get d.machine.pc), true⟩]) ∧
      (d.machine.pc = 100 → d.marked count = [])) ∧
    d.machine.pc ≤ 100 ∧
    (d.machine.state = .running → d.machine.pc < 100 →
      ∃ i,
        d.machine.step = (.ok i, d.step.machine) ∧
        (∀ count, 0 < count → d.marked count = [⟨d.machine.pc, i.text, true⟩]) ∧
        ((d.step.machine.diagnostics = d.machine.diagnostics ∧
            d.step.status.text = "PC=" ++ Numeral.twoDigits d.machine.pc ++ ": " ++ i.text) ∨
          ∃ condition,
            d.step.machine.diagnostics = d.machine.diagnostics.push condition ∧
            d.step.status.text =
              "PC=" ++ Numeral.twoDigits d.machine.pc ++ ": " ++ condition.text)) ∧
    (d.machine.state = .running → d.machine.pc = 100 →
      d.step.status.text = "Error: program counter out of bounds: 100" ∧
        d.step.running = false) := by
  have hmachine := (hd.machine_reachable hm).consistent
  refine ⟨fun count => ⟨⟨d.listingStart count, d.listingStart_add_le count,
      d.map_address_listing count⟩, fun row => d.text_of_mem_listing count, marked_of_pc_lt,
      fun hpc => marked_of_le_pc hpc.ge⟩, hmachine.pc_le, ?_, ?_⟩
  · intro hrunning hpc
    obtain ⟨i, next, hreads, hs, hn⟩ := Machine.step_follows hmachine.words hrunning hpc
    have hi : Instruction.decode (d.machine.memory.get d.machine.pc) = i :=
      Instruction.reads_iff.1 hreads
    rw [step_of_follows hrunning hs hn]
    refine ⟨i, hs, fun count hcount => ?_, ?_⟩
    · rw [marked_of_pc_lt hcount hpc, Listing.assembly, hi]
    · have hdiagnostics := hn.diagnostics
      rcases d.machine.reported_cases i with hquiet | ⟨condition, hloud⟩
      · left
        rw [hquiet, List.append_nil, Array.toList_inj] at hdiagnostics
        refine ⟨hdiagnostics, ?_⟩
        rw [statusAfter, hquiet, Status.text, Numeral.wide_two hpc]
      · right
        rw [hloud, ← Array.toList_push, Array.toList_inj] at hdiagnostics
        refine ⟨condition, hdiagnostics, ?_⟩
        rw [statusAfter, hloud, Status.text, Numeral.wide_two hpc]
  · intro hrunning hpc
    have htext : (Status.failed (.pcOutOfBounds 100)).text =
        "Error: program counter out of bounds: 100" := by decide
    rw [step_of_le_pc hrunning hpc.ge, hpc]
    exact ⟨htext, rfl⟩

/-- A branch leads close to the end of memory, where the listing of five lines cannot have the
counter in its middle, and to an input instruction that finds nothing to read. -/
theorem Reached.listing_marks_next_of_starved :
    let m := ((Machine.new .bounded32).load [698]).loadAt 98 [901]
    let d := (Debugger.start m).step
    m.Reachable ∧ Reached m d ∧ d.marked 5 = [⟨98, "INP", true⟩] ∧
      (d.listing 5).map ListingRow.address = [95, 96, 97, 98, 99] ∧
      d.step.status.text = "PC=98: no input available for INP at 98" := by
  intro m d
  have hm : m.Reachable :=
    ((Machine.reachable_new .bounded32).perform (.loadAt 0 [698])).perform (.loadAt 98 [901])
  have hd : Reached m d := .step .start
  have hrunning : d.machine.state = .running := by decide +kernel
  have hpc : d.machine.pc = 98 := by decide +kernel
  have hget : d.machine.memory.get 98 = 901 := by decide +kernel
  have hbefore : d.machine.diagnostics = #[] := by decide +kernel
  have hafter : d.step.machine.diagnostics = #[.inputStarved 98] := by decide +kernel
  obtain ⟨hlisting, -, hstep, -⟩ := Reached.listing_marks_next hm hd
  obtain ⟨-, -, hmarked, -⟩ := hlisting 5
  obtain ⟨i, hi, -, hshown⟩ := hstep hrunning (by omega)
  refine ⟨hm, hd, ?_, by decide +kernel, ?_⟩
  · rw [hmarked (by decide) (by omega), hpc, hget]
    rfl
  · rcases hshown with ⟨hsame, -⟩ | ⟨condition, hpush, htext⟩
    · rw [hafter, hbefore] at hsame
      cases hsame
    · rw [hafter, hbefore] at hpush
      cases hpush
      rw [htext, hpc]
      decide

end Debugger

end LittleMan
