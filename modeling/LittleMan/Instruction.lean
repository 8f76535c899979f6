import LittleMan.Text.Numeral

/-!
# Instructions

An instruction is a word read by its digits. Three words stand for instructions without operand;
any other word of three digits names an operation by its hundreds and a mailbox by the two digits
below them. Every word reads as something: a word that is no instruction reads as `unknown`, which
a machine carries out by doing nothing.

Reading and writing are total in both directions. An instruction built by hand may name a mailbox
beyond 99; writing it keeps the low two digits.

## Main definitions

* `Instruction`, `Opcode` — the instruction set, with and without operands
* `Instruction.decode`, `Instruction.encode` — the instruction of a word, the word of an instruction
* `Instruction.text` — assembly text

## Main results

* `Instruction.encode_decode` — reading loses nothing
* `Instruction.operand_decode_lt` — an instruction that was read names one of the 100 mailboxes
-/

namespace LittleMan

/-- The operations of the computer. -/
inductive Opcode
  | hlt | add | sub | sta | lda | bra | brz | brp | inp | out | unknown
  deriving DecidableEq, Inhabited

namespace Opcode

/-- The three letters of an operation in assembly text. -/
def mnemonic : Opcode → String
  | hlt => "HLT"
  | add => "ADD"
  | sub => "SUB"
  | sta => "STA"
  | lda => "LDA"
  | bra => "BRA"
  | brz => "BRZ"
  | brp => "BRP"
  | inp => "INP"
  | out => "OUT"
  | unknown => "???"

/-- The name of an operation in state dumps and logs. -/
def label : Opcode → String
  | hlt => "Hlt"
  | add => "Add"
  | sub => "Sub"
  | sta => "Sta"
  | lda => "Lda"
  | bra => "Bra"
  | brz => "Brz"
  | brp => "Brp"
  | inp => "Inp"
  | out => "Out"
  | unknown => "Unknown"

/-- Whether the operation may change where execution goes on. -/
def isBranch : Opcode → Bool
  | bra | brz | brp => true
  | _ => false

end Opcode

/-- An instruction, with the mailbox it names if it names one. -/
inductive Instruction
  /-- Stop. -/
  | hlt
  /-- Add a mailbox to the accumulator. -/
  | add (mailbox : Nat)
  /-- Subtract a mailbox from the accumulator. -/
  | sub (mailbox : Nat)
  /-- Store the accumulator in a mailbox. -/
  | sta (mailbox : Nat)
  /-- Load the accumulator from a mailbox. -/
  | lda (mailbox : Nat)
  /-- Go on at a mailbox. -/
  | bra (mailbox : Nat)
  /-- Go on at a mailbox if the accumulator is zero. -/
  | brz (mailbox : Nat)
  /-- Go on at a mailbox if the accumulator is positive. -/
  | brp (mailbox : Nat)
  /-- Take one input value into the accumulator. -/
  | inp
  /-- Write the accumulator to the output. -/
  | out
  /-- A word that is no instruction. -/
  | unknown (raw : Int)
  deriving DecidableEq, Inhabited

namespace Instruction

/-- The operation of an instruction. -/
def opcode : Instruction → Opcode
  | hlt => .hlt
  | add _ => .add
  | sub _ => .sub
  | sta _ => .sta
  | lda _ => .lda
  | bra _ => .bra
  | brz _ => .brz
  | brp _ => .brp
  | inp => .inp
  | out => .out
  | unknown _ => .unknown

/-- The mailbox that an instruction names. -/
def operand : Instruction → Option Nat
  | add a | sub a | sta a | lda a | bra a | brz a | brp a => some a
  | hlt | inp | out | unknown _ => none

/-- Whether the instruction may change where execution goes on. -/
def isBranch (i : Instruction) : Bool :=
  i.opcode.isBranch

/-- The instruction of a word whose hundreds digit is `hundreds` and whose lower digits are `a`. -/
def ofDigits (raw : Int) (hundreds a : Nat) : Instruction :=
  match hundreds with
  | 1 => add a
  | 2 => sub a
  | 3 => sta a
  | 5 => lda a
  | 6 => bra a
  | 7 => brz a
  | 8 => brp a
  | _ => unknown raw

/-- The instruction that a word stands for. -/
def decode (raw : Int) : Instruction :=
  if raw = 0 then hlt
  else if raw = 901 then inp
  else if raw = 902 then out
  else if 100 ≤ raw ∧ raw < 1000 then ofDigits raw (raw / 100).toNat (raw % 100).toNat
  else unknown raw

/-- The word that stands for an instruction. Of a mailbox beyond 99 only the low two digits
are kept. -/
def encode : Instruction → Int
  | hlt => 0
  | add a => 100 + (a % 100 : Nat)
  | sub a => 200 + (a % 100 : Nat)
  | sta a => 300 + (a % 100 : Nat)
  | lda a => 500 + (a % 100 : Nat)
  | bra a => 600 + (a % 100 : Nat)
  | brz a => 700 + (a % 100 : Nat)
  | brp a => 800 + (a % 100 : Nat)
  | inp => 901
  | out => 902
  | unknown raw => raw

/-- The assembly text of an instruction. A word that is no instruction is written as data. -/
def text (i : Instruction) : String :=
  match i, i.operand with
  | unknown raw, _ => "DAT " ++ Numeral.plain raw
  | _, some a => i.opcode.mnemonic ++ " " ++ Numeral.wide 2 a
  | _, none => i.opcode.mnemonic

/-- The instruction with its field names, as the log shows it. -/
def detail (i : Instruction) : String :=
  match i, i.operand with
  | unknown raw, _ => "Unknown \x7b raw: " ++ Numeral.plain raw ++ " \x7d"
  | _, some a => i.opcode.label ++ " \x7b addr: " ++ Numeral.plain a ++ " \x7d"
  | _, none => i.opcode.label

theorem encode_ofDigits {raw : Int} (h : 100 ≤ raw ∧ raw < 1000) :
    encode (ofDigits raw (raw / 100).toNat (raw % 100).toNat) = raw := by
  unfold ofDigits
  split <;> simp only [encode] <;> omega

/-- **Reading loses nothing.** Every word can be written back from the instruction it reads as. -/
theorem encode_decode (raw : Int) : encode (decode raw) = raw := by
  unfold decode
  split
  · simp [encode, *]
  split
  · simp [encode, *]
  split
  · simp [encode, *]
  split
  · next h => exact encode_ofDigits h
  · rfl

theorem operand_ofDigits_lt {raw : Int} {hundreds n a : Nat} (hn : n < 100)
    (h : (ofDigits raw hundreds n).operand = some a) : a < 100 := by
  unfold ofDigits at h
  split at h <;> simp_all [operand]

/-- An instruction that was read from a word names one of the 100 mailboxes, if any. -/
theorem operand_decode_lt {raw : Int} {a : Nat} (h : (decode raw).operand = some a) :
    a < 100 := by
  unfold decode at h
  split at h
  · simp [operand] at h
  split at h
  · simp [operand] at h
  split at h
  · simp [operand] at h
  split at h
  · exact operand_ofDigits_lt (by omega) h
  · simp [operand] at h

example : decode 599 = lda 99 := by decide
example : decode 499 = unknown 499 := by decide
example : decode (-101) = unknown (-101) := by decide
example : encode (add 205) = 105 := by decide

end Instruction

end LittleMan
