import LittleMan.Proofs.Machine.Restart
import LittleMan.Proofs.ProgramText

/-!
# The image of a sample

A sample is exported as an image of memory: its program and its preset words in their places,
without the zeros at the end. Loading the image is one load where loading the sample takes many,
some of which may overwrite what an earlier one put there, or miss memory altogether. Both come to
the same memory, and on any machine to the same machine.

The image is taken from a decimal machine. That it serves every other machine rests on the words of
the sample: as long as the decimal policy keeps them, no machine has to clamp any, and what is in
memory does not depend on the policy.

## Main definitions

* `Sample.layout` — the mailboxes of a machine that was made ready for a sample

## Main results

* `Sample.prepare_of_portable` — a machine that was made ready for a sample, in one equation
* `Memory.load_rdropWhile` — zeros at the end need not be loaded
* `Sample.exported_runs_alike` — an exported sample runs like the sample
-/

namespace LittleMan

/-! ### Memory -/

namespace Memory

/-- Beyond the zeros that were dropped a list is as it was, or it has ended and there was a zero. -/
theorem getD_getElem?_rdropWhile (ws : List Int) (a : Nat) :
    (ws.rdropWhile (· = 0))[a]?.getD 0 = ws[a]?.getD 0 := by
  have hsplit : ws.rdropWhile (· = 0) ++ ws.rtakeWhile (· = 0) = ws :=
    List.rdropWhile_append_rtakeWhile
  by_cases ha : a < (ws.rdropWhile (· = 0)).length
  · conv_rhs => rw [← hsplit]
    rw [List.getElem?_append_left ha]
  · -- what is read from the whole list is past the image or one of the zeros that were dropped
    have hzero : ws[a]?.getD 0 = 0 := by
      cases hw : ws[a]? with
      | none => rfl
      | some w =>
        rw [← hsplit, List.getElem?_append_right (Nat.le_of_not_lt ha)] at hw
        have hmem := List.mem_rtakeWhile_imp (List.mem_of_getElem? hw)
        exact of_decide_eq_true hmem
    rw [List.getElem?_eq_none (Nat.le_of_not_lt ha), hzero, Option.getD_none]

/-- **Zeros at the end need not be loaded** into a memory that is empty. -/
theorem load_rdropWhile (m : Memory) : empty.load 0 (m.toList.rdropWhile (· = 0)) = m := by
  refine ext_get fun a ha => ?_
  rw [get_load, if_pos ⟨Nat.zero_le a, ha⟩, Nat.sub_zero, get_empty, getD_getElem?_rdropWhile,
    getElem?_toList, get]

end Memory

namespace Sample

/-! ### What a sample puts into memory -/

/-- The mailboxes of a machine that was made ready for a sample: its program from mailbox zero on,
and over it the preset words, one after the other. -/
def layout (s : Sample) : Memory :=
  s.data.foldl (fun mem cell => mem.load cell.1 [cell.2]) (Memory.empty.load 0 s.cells)

/-- Preset words in range are put into memory one by one. -/
theorem memory_preset {data : List (Nat × Int)} {m : Machine}
    (h : ∀ cell ∈ data, m.policy.Keeps cell.2) :
    (preset data m).memory =
      data.foldl (fun mem cell => mem.load cell.1 [cell.2]) m.memory := by
  induction data generalizing m with
  | nil => rfl
  | cons cell rest ih =>
    obtain ⟨hcell, hrest⟩ := List.forall_mem_cons.1 h
    have hload : (m.loadAt cell.1 [cell.2]).memory = m.memory.load cell.1 [cell.2] := by
      rw [Machine.loadAt_of_keeps (List.forall_mem_singleton.2 hcell)]
    rw [preset_cons, ih (m := m.loadAt cell.1 [cell.2]) hrest, hload, List.foldl_cons]

/-- **A machine that was made ready for a sample** is a fresh one with the layout of the sample in
memory and the input in its queue. -/
theorem prepare_of_portable {s : Sample} (h : s.Portable) (inputs : List Int) (m : Machine) :
    s.prepare inputs m = ({ m.reset with memory := s.layout } : Machine).queue inputs := by
  have hcells : ∀ w ∈ s.cells, m.reset.policy.Keeps w := fun w hw => (h.cells w hw).of_decimal _
  have hdata : ∀ cell ∈ s.data, (m.reset.load s.cells).policy.Keeps cell.2 :=
    fun cell hcell => (h.data cell hcell).of_decimal _
  have hmemory : (preset s.data (m.reset.load s.cells)).memory = s.layout := by
    rw [memory_preset hdata, Machine.load, Machine.loadAt_of_keeps hcells]
    rfl
  rw [prepare, Machine.loaded_of_portable h, hmemory]

/-- The image of a sample is its layout without the zeros at the end. -/
theorem image_eq {s : Sample} (h : s.Portable) :
    s.image = s.layout.toList.rdropWhile (· = 0) := by
  rw [image, prepareAsShown, prepare_of_portable h]
  rfl

/-- Every machine keeps the words of the image, since the machine that it was taken from does. -/
theorem keeps_of_mem_image {s : Sample} (h : s.Portable) {w : Int} (hw : w ∈ s.image) :
    Policy.decimal.Keeps w := by
  have hconsistent : (s.prepareAsShown (Machine.new .decimal)).Consistent :=
    Machine.kept_consistent.perform (.prepare s s.inputs) (Machine.consistent_new .decimal)
  rw [image_eq h] at hw
  have hmem : w ∈ s.layout.toList := by
    have hbefore := List.rdropWhile_prefix (· = 0) s.layout.toList
    exact hbefore.mem hw
  rw [prepareAsShown, prepare_of_portable h] at hconsistent
  exact hconsistent.keeps_mailbox hmem

/-- Loading the image of a sample makes a machine ready for it. -/
theorem load_image {s : Sample} (h : s.Portable) (inputs : List Int) (m : Machine) :
    (m.reset.load s.image).queue inputs = s.prepare inputs m := by
  have hkeeps : ∀ w ∈ s.image, m.reset.policy.Keeps w :=
    fun w hw => (keeps_of_mem_image h hw).of_decimal _
  have hmemory : m.reset.memory.load 0 s.image = s.layout := by
    rw [image_eq h]
    exact Memory.load_rdropWhile s.layout
  rw [prepare_of_portable h, Machine.load, Machine.loadAt_of_keeps hkeeps, hmemory]

/-! ### Exported samples -/

/-- The image of a sample is read back as it was written. -/
theorem parse_write_image {s : Sample} (h : s.Portable) :
    ProgramText.parse (ProgramText.write s.image) = { cells := s.image } := by
  refine ProgramText.parse_write fun w hw => ?_
  have hkeeps := (keeps_of_mem_image h hw).of_decimal .bounded64
  exact hkeeps

/-- **An exported sample runs like the sample.** The built-in samples have words that fit every
machine. Of any sample with such words, whatever its program and its preset words are, the image is
read back without a line left out; and loaded into a fresh machine of any variant, with any provider
and any input, it makes that the machine which any other of this variant and provider becomes when
it is made ready for the sample. So nothing that is done with them afterwards tells the two apart.
-/
theorem exported_runs_alike :
    (∀ s ∈ catalogue, s.Portable) ∧
    ∀ s : Sample, s.Portable → ∀ (v : Variant) (source : Provider) (inputs : List Int),
      let text := ProgramText.parse (ProgramText.write s.image)
      let fresh := (Machine.new v.policy).attach source
      text.skipped = [] ∧
        ∀ m : Machine, m.policy = v.policy → m.provider = source →
          (fresh.load text.cells).queue inputs = s.prepare inputs m := by
  refine ⟨fun s => portable_of_mem, ?_⟩
  intro s h v source inputs text fresh
  have htext : text = { cells := s.image } := parse_write_image h
  refine ⟨by rw [htext], fun m hpolicy hprovider => ?_⟩
  have hfresh : m.reset = fresh := Machine.reset_eq_iff.2 ⟨hpolicy, hprovider⟩
  rw [htext, ← hfresh]
  exact load_image h inputs m

/-- A sample that is too long for memory, with preset words over its program, over each other and
beyond memory, and with zeros at the end of what is left. -/
theorem exported_runs_alike_of_overlaps :
    let s : Sample :=
      { name := "overlaps"
        description := "Preset words over the program"
        cells := [901, 902, 0] ++ List.replicate 97 505 ++ [-7, 3]
        data := [(2, 196), (96, 42), (97, 8), (97, 0), (98, 0), (99, 0), (100, 5)]
        expected := [] }
    let fresh := (Machine.new .bounded32).attach (.fixed 7)
    let used := (((Machine.new .bounded32).attach (.fixed 7)).load [901]).queue [3]
    s.Portable ∧ s.image.length = 97 ∧
      (fresh.load (ProgramText.parse (ProgramText.write s.image)).cells).queue [0x80000000] =
        s.prepare [0x80000000] used := by
  intro s fresh used
  have hs : s.Portable := ⟨by decide, by decide⟩
  have halike := (exported_runs_alike.2 s hs .lmc32 (.fixed 7) [0x80000000]).2 used rfl rfl
  have hlength : s.image.length = 97 := by
    rw [image_eq hs]
    decide +kernel
  exact ⟨hs, hlength, halike⟩

end Sample

end LittleMan
