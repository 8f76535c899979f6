import LittleMan.Instruction

/-!
# The digit rules

Which instruction a word stands for, as rules and not as a computation. Three words stand for an
instruction as they are. A word whose hundreds digit names an operation stands for it, and its two
low digits are the mailbox. No other word stands for an instruction, and it reads as `unknown`.

The rules leave nothing open: `reads_iff` says that every word reads as exactly one instruction, the
one that `decode` finds.

Reading and writing are inverse to each other as far as they can be. Each word is written back from
what it reads as. An instruction is read back from its word unless the word has no room for it: its
mailbox may have more than two digits, or it may pass off a code as no instruction.

## Main definitions

* `Instruction.IsCode` — the words that stand for an instruction
* `Instruction.Reads` — the rules
* `Instruction.Expressible` — the instructions that can be written as a word

## Main results

* `Instruction.reads_iff` — the rules and `decode` agree
* `Instruction.decode_encode_eq_self_iff` — which instructions are read back from their words
* `Instruction.decode_encode_inverse` — how far reading and writing are inverse to each other
-/

namespace LittleMan

namespace Instruction

/-- The words that stand for an instruction: three of their own, and those whose hundreds digit
names an operation. -/
def IsCode (raw : Int) : Prop :=
  raw = 0 ∨ raw = 901 ∨ raw = 902 ∨ (100 ≤ raw ∧ raw < 400) ∨ (500 ≤ raw ∧ raw < 900)

/-- The digit rules. `Reads raw i` says that the word `raw` stands for the instruction `i`. -/
inductive Reads : Int → Instruction → Prop
  | hlt : Reads 0 hlt
  | inp : Reads 901 inp
  | out : Reads 902 out
  | add {a : Nat} (h : a < 100) : Reads (100 + a) (add a)
  | sub {a : Nat} (h : a < 100) : Reads (200 + a) (sub a)
  | sta {a : Nat} (h : a < 100) : Reads (300 + a) (sta a)
  | lda {a : Nat} (h : a < 100) : Reads (500 + a) (lda a)
  | bra {a : Nat} (h : a < 100) : Reads (600 + a) (bra a)
  | brz {a : Nat} (h : a < 100) : Reads (700 + a) (brz a)
  | brp {a : Nat} (h : a < 100) : Reads (800 + a) (brp a)
  | unknown {raw : Int} (h : ¬IsCode raw) : Reads raw (unknown raw)

/-- A word of three digits, by its hundreds and the digits below them. -/
theorem decode_of_digits {raw : Int} {d a : Nat} (hd : 0 < d) (hd' : d < 9) (ha : a < 100)
    (h : raw = 100 * d + a) : decode raw = ofDigits raw d a := by
  have hne : raw ≠ 0 ∧ raw ≠ 901 ∧ raw ≠ 902 := by omega
  have hrange : 100 ≤ raw ∧ raw < 1000 := by omega
  have hdiv : (raw / 100).toNat = d := by omega
  have hmod : (raw % 100).toNat = a := by omega
  rw [decode, if_neg hne.1, if_neg hne.2.1, if_neg hne.2.2, if_pos hrange, hdiv, hmod]

theorem decode_of_not_isCode {raw : Int} (h : ¬IsCode raw) : decode raw = unknown raw := by
  unfold IsCode at h
  have hne : raw ≠ 0 ∧ raw ≠ 901 ∧ raw ≠ 902 := by omega
  rw [decode, if_neg hne.1, if_neg hne.2.1, if_neg hne.2.2]
  split
  · have hd : (raw / 100).toNat = 4 ∨ (raw / 100).toNat = 9 := by omega
    rcases hd with hd | hd <;> rw [hd] <;> rfl
  · rfl

/-- What a word reads as by the rules is what `decode` finds. -/
theorem Reads.decode_eq {raw : Int} {i : Instruction} (h : Reads raw i) : decode raw = i := by
  cases h with
  | hlt => rfl
  | inp => rfl
  | out => rfl
  | add h => exact decode_of_digits (d := 1) (by decide) (by decide) h (by omega)
  | sub h => exact decode_of_digits (d := 2) (by decide) (by decide) h (by omega)
  | sta h => exact decode_of_digits (d := 3) (by decide) (by decide) h (by omega)
  | lda h => exact decode_of_digits (d := 5) (by decide) (by decide) h (by omega)
  | bra h => exact decode_of_digits (d := 6) (by decide) (by decide) h (by omega)
  | brz h => exact decode_of_digits (d := 7) (by decide) (by decide) h (by omega)
  | brp h => exact decode_of_digits (d := 8) (by decide) (by decide) h (by omega)
  | unknown h => exact decode_of_not_isCode h

/-- A code other than the three words of their own splits into one of seven hundreds digits and a
mailbox. -/
theorem exists_digits {raw : Int} (h : (100 ≤ raw ∧ raw < 400) ∨ (500 ≤ raw ∧ raw < 900)) :
    ∃ d a : Nat, raw = 100 * d + a ∧ a < 100 ∧
      (d = 1 ∨ d = 2 ∨ d = 3 ∨ d = 5 ∨ d = 6 ∨ d = 7 ∨ d = 8) :=
  ⟨(raw / 100).toNat, (raw % 100).toNat, by omega, by omega, by omega⟩

/-- Every word reads as something. -/
theorem exists_reads (raw : Int) : ∃ i, Reads raw i := by
  by_cases h : IsCode raw
  · rcases h with rfl | rfl | rfl | h
    · exact ⟨_, .hlt⟩
    · exact ⟨_, .inp⟩
    · exact ⟨_, .out⟩
    · obtain ⟨d, a, rfl, ha, rfl | rfl | rfl | rfl | rfl | rfl | rfl⟩ := exists_digits h
      · exact ⟨_, .add ha⟩
      · exact ⟨_, .sub ha⟩
      · exact ⟨_, .sta ha⟩
      · exact ⟨_, .lda ha⟩
      · exact ⟨_, .bra ha⟩
      · exact ⟨_, .brz ha⟩
      · exact ⟨_, .brp ha⟩
  · exact ⟨_, .unknown h⟩

/-- **The rules and the decoder agree.** A word reads as one instruction and no other. -/
theorem reads_iff {raw : Int} {i : Instruction} : Reads raw i ↔ decode raw = i := by
  refine ⟨Reads.decode_eq, fun h => ?_⟩
  obtain ⟨j, hj⟩ := exists_reads raw
  rwa [← h, hj.decode_eq]

/-- Exactly the codes read as instructions. -/
theorem decode_eq_unknown_iff {raw raw' : Int} :
    decode raw = unknown raw' ↔ raw = raw' ∧ ¬IsCode raw := by
  rw [← reads_iff]
  constructor
  · intro h
    cases h with
    | unknown hnot => exact ⟨rfl, hnot⟩
  · rintro ⟨rfl, h⟩
    exact .unknown h

/-! ### Writing back -/

/-- The instruction with another mailbox, if it names one. -/
def mapOperand (f : Nat → Nat) : Instruction → Instruction
  | add a => add (f a)
  | sub a => sub (f a)
  | sta a => sta (f a)
  | lda a => lda (f a)
  | bra a => bra (f a)
  | brz a => brz (f a)
  | brp a => brp (f a)
  | hlt => hlt
  | inp => inp
  | out => out
  | unknown raw => unknown raw

/-- The instruction passes off a code as a word that is no instruction. -/
def Disguised : Instruction → Prop
  | unknown raw => IsCode raw
  | _ => False

/-- The instruction can be written as a word: its mailbox has two digits at most, and it is not
disguised. -/
structure Expressible (i : Instruction) : Prop where
  operand_lt : ∀ a, i.operand = some a → a < 100
  not_disguised : ¬i.Disguised

theorem mapOperand_eq_self_iff {f : Nat → Nat} {i : Instruction} :
    i.mapOperand f = i ↔ ∀ a, i.operand = some a → f a = a := by
  cases i <;> simp [mapOperand, operand]

/-- What is written for an instruction reads as the instruction with the low two digits of its
mailbox. -/
theorem reads_encode {i : Instruction} (h : ¬i.Disguised) :
    Reads i.encode (i.mapOperand (· % 100)) := by
  cases i with
  | hlt => exact .hlt
  | inp => exact .inp
  | out => exact .out
  | add a => exact .add (Nat.mod_lt a (by decide))
  | sub a => exact .sub (Nat.mod_lt a (by decide))
  | sta a => exact .sta (Nat.mod_lt a (by decide))
  | lda a => exact .lda (Nat.mod_lt a (by decide))
  | bra a => exact .bra (Nat.mod_lt a (by decide))
  | brz a => exact .brz (Nat.mod_lt a (by decide))
  | brp a => exact .brp (Nat.mod_lt a (by decide))
  | unknown raw => exact .unknown h

theorem Expressible.mapOperand_eq {i : Instruction} (h : i.Expressible) :
    i.mapOperand (· % 100) = i :=
  mapOperand_eq_self_iff.2 fun a ha => Nat.mod_eq_of_lt (h.operand_lt a ha)

/-- Whatever a word reads as can be written. -/
theorem Reads.expressible {raw : Int} {i : Instruction} (h : Reads raw i) : i.Expressible := by
  refine ⟨fun a ha => operand_decode_lt (h.decode_eq ▸ ha), fun hcode => ?_⟩
  cases h with
  | unknown hnot => exact hnot hcode
  | _ => exact hcode

/-- **Only what can be written is read back.** -/
theorem decode_encode_eq_self_iff {i : Instruction} :
    decode (encode i) = i ↔ i.Expressible := by
  constructor
  · intro h
    exact (reads_iff.2 h).expressible
  · intro h
    rw [(reads_encode h.not_disguised).decode_eq, h.mapOperand_eq]

/-- **How far reading and writing are inverse to each other.** Every word is written back from the
instruction it reads as, which is `unknown` exactly if the word is no code, and which names a
mailbox below 100 if it names one. An instruction is read back from its word with the low two digits
of its mailbox, unless it is disguised; then the code comes to light. So it is read back as it was
if and only if its mailbox, if it names one, is below 100 and it is not disguised. -/
theorem decode_encode_inverse :
    (∀ raw : Int,
      encode (decode raw) = raw ∧ (decode raw = unknown raw ↔ ¬IsCode raw) ∧
        ∀ a, (decode raw).operand = some a → a < 100) ∧
    ∀ i : Instruction,
      (¬i.Disguised → decode (encode i) = i.mapOperand (· % 100)) ∧
      (∀ raw, i = unknown raw → IsCode raw →
        Reads raw (decode (encode i)) ∧ ∀ raw', decode (encode i) ≠ unknown raw') ∧
      (decode (encode i) = i ↔ (∀ a, i.operand = some a → a < 100) ∧ ¬i.Disguised) := by
  refine ⟨fun raw => ⟨encode_decode raw, ?_, fun a => operand_decode_lt⟩, fun i => ⟨?_, ?_, ?_⟩⟩
  · rw [decode_eq_unknown_iff, and_iff_right rfl]
  · intro h
    exact (reads_encode h).decode_eq
  · rintro raw rfl hcode
    refine ⟨reads_iff.2 rfl, fun raw' h => ?_⟩
    exact (decode_eq_unknown_iff.1 h).2 hcode
  · rw [decode_encode_eq_self_iff]
    exact ⟨fun h => ⟨h.operand_lt, h.not_disguised⟩, fun h => ⟨h.1, h.2⟩⟩

/-- The greatest mailbox of eight bits loses its hundreds. A disguised code is read as what it is,
and the words beside it stay what they are. -/
theorem decode_encode_inverse_of_limits :
    decode (encode (add 255)) = add 55 ∧ decode (encode (brp 99)) = brp 99 ∧
      decode (encode (unknown 901)) = inp ∧ decode (encode (unknown 900)) = unknown 900 := by
  obtain ⟨-, hwritten⟩ := decode_encode_inverse
  have hcode : IsCode 901 := .inr (.inl rfl)
  have hnot : ¬IsCode 900 := by
    unfold IsCode
    omega
  obtain ⟨hinp, -⟩ := (hwritten (unknown 901)).2.1 901 rfl hcode
  refine ⟨(hwritten (add 255)).1 not_false, ?_, hinp.decode_eq.symm, ?_⟩
  · exact (hwritten (brp 99)).2.2 |>.2 ⟨by decide, not_false⟩
  · exact (hwritten (unknown 900)).2.2 |>.2 ⟨by decide, hnot⟩

end Instruction

end LittleMan
