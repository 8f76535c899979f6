import LittleMan.Machine.Journal
import LittleMan.Variant

/-!
# Samples

The built-in programs. A sample is a program for mailbox zero on, words preset in further
mailboxes, the input it is shown with and the output that this input gives.

## Main definitions

* `Sample`, `Sample.prepare` — a sample, and a machine made ready for it
* `Sample.catalogue`, `Sample.find?` — all samples, and one by its name
* `Sample.image`, `Sample.imageJournal` — what a sample puts into memory, and what that records
-/

namespace LittleMan

/-- A built-in program. -/
structure Sample where
  /-- A short name. -/
  name : String
  /-- What the program does. -/
  description : String
  /-- The words for mailbox zero on. -/
  cells : List Int
  /-- Words preset in further mailboxes, with their addresses. -/
  data : List (Nat × Int) := []
  /-- The input the program is shown with. -/
  inputs : List Int := []
  /-- The output that this input gives. -/
  expected : List Int
  /-- The variants whose words can hold the values of the program. -/
  variants : List Variant := Variant.all
  deriving DecidableEq, Inhabited

namespace Sample

/-- Whether the program runs as intended on a variant. -/
def supports (s : Sample) (v : Variant) : Bool :=
  s.variants.contains v

/-- The machine with the preset words of a sample loaded one by one. -/
def preset (data : List (Nat × Int)) (m : Machine) : Machine :=
  data.foldl (fun m cell => m.loadAt cell.1 [cell.2]) m

/-- The machine after a reset, with the sample loaded and input queued. -/
def prepare (s : Sample) (inputs : List Int) (m : Machine) : Machine :=
  (preset s.data (m.reset.load s.cells)).queue inputs

/-- The machine after a reset, with the sample loaded and its own input queued. -/
def prepareAsShown (s : Sample) (m : Machine) : Machine :=
  s.prepare s.inputs m

/-- What loading preset words records. -/
def presetJournal : List (Nat × Int) → Machine → List Record
  | [], _ => []
  | cell :: rest, m =>
    m.loadJournal cell.1 [cell.2] ++ presetJournal rest (m.loadAt cell.1 [cell.2])

/-- What making a machine ready for a sample records. -/
def journal (s : Sample) (inputs : List Int) (m : Machine) : List Record :=
  let loaded := m.reset.load s.cells
  m.reset.loadJournal 0 s.cells ++ presetJournal s.data loaded
    ++ (preset s.data loaded).queueJournal inputs

/-- What a sample puts into the memory of a classic machine, without the zeros at the end. -/
def image (s : Sample) : List Int :=
  let cells := (s.prepareAsShown (Machine.new .decimal)).memory.toList
  (cells.reverse.dropWhile (· = 0)).reverse

/-- What making the image records. -/
def imageJournal (s : Sample) : List Record :=
  s.journal s.inputs (Machine.new .decimal)

/-- Add two numbers. -/
def addition : Sample where
  name := "add"
  description := "Add two input numbers"
  cells := [
    901, -- 00: INP
    390, -- 01: STA 90
    901, -- 02: INP
    190, -- 03: ADD 90
    902, -- 04: OUT
    0]   -- 05: HLT
  inputs := [5, 3]
  expected := [8]

/-- Count down to zero. -/
def countdown : Sample where
  name := "countdown"
  description := "Count down from 10 to 0"
  cells := [
    590, -- 00: LDA 90
    902, -- 01: OUT
    291, -- 02: SUB 91
    390, -- 03: STA 90
    800, -- 04: BRP 00
    0]   -- 05: HLT
  data := [(90, 10), (91, 1)]
  expected := [10, 9, 8, 7, 6, 5, 4, 3, 2, 1, 0]

/-- The largest of three numbers. -/
def maxOfThree : Sample where
  name := "max3"
  description := "Output the largest of three inputs"
  cells := [
    901, -- 00: INP
    390, -- 01: STA 90      the largest so far
    901, -- 02: INP
    391, -- 03: STA 91
    590, -- 04: LDA 90
    291, -- 05: SUB 91
    809, -- 06: BRP 09      the second is no larger
    591, -- 07: LDA 91
    390, -- 08: STA 90
    901, -- 09: INP
    391, -- 10: STA 91
    590, -- 11: LDA 90
    291, -- 12: SUB 91
    816, -- 13: BRP 16      the third is no larger
    591, -- 14: LDA 91
    390, -- 15: STA 90
    590, -- 16: LDA 90
    902, -- 17: OUT
    0]   -- 18: HLT
  inputs := [12, 47, 30]
  expected := [47]

/-- Multiply by adding again and again. -/
def multiplication : Sample where
  name := "multiply"
  description := "Multiply two inputs by repeated addition (multiplier must be >= 0)"
  cells := [
    901, -- 00: INP
    390, -- 01: STA 90      multiplicand
    901, -- 02: INP
    391, -- 03: STA 91      multiplier
    594, -- 04: LDA 94
    392, -- 05: STA 92      result
    591, -- 06: LDA 91
    715, -- 07: BRZ 15
    592, -- 08: LDA 92
    190, -- 09: ADD 90
    392, -- 10: STA 92
    591, -- 11: LDA 91
    295, -- 12: SUB 95
    391, -- 13: STA 91
    606, -- 14: BRA 06
    592, -- 15: LDA 92
    902, -- 16: OUT
    0]   -- 17: HLT
  data := [(94, 0), (95, 1)]
  inputs := [6, 7]
  expected := [42]

/-- The factorial, by repeated multiplication. -/
def factorial : Sample where
  name := "factorial"
  description := "Factorial of the input (input must be >= 0)"
  cells := [
    901, -- 00: INP
    390, -- 01: STA 90      counter
    595, -- 02: LDA 95
    391, -- 03: STA 91      result
    590, -- 04: LDA 90
    724, -- 05: BRZ 24
    393, -- 06: STA 93      additions left
    594, -- 07: LDA 94
    392, -- 08: STA 92      product
    593, -- 09: LDA 93
    718, -- 10: BRZ 18
    592, -- 11: LDA 92
    191, -- 12: ADD 91
    392, -- 13: STA 92
    593, -- 14: LDA 93
    295, -- 15: SUB 95
    393, -- 16: STA 93
    609, -- 17: BRA 09
    592, -- 18: LDA 92
    391, -- 19: STA 91
    590, -- 20: LDA 90
    295, -- 21: SUB 95
    390, -- 22: STA 90
    604, -- 23: BRA 04
    591, -- 24: LDA 91
    902, -- 25: OUT
    0]   -- 26: HLT
  data := [(94, 0), (95, 1)]
  inputs := [5]
  expected := [120]

/-- The first Fibonacci numbers. -/
def fibonacci : Sample where
  name := "fibonacci"
  description := "Output the first N Fibonacci numbers (N must be >= 0)"
  cells := [
    901, -- 00: INP
    390, -- 01: STA 90      numbers left
    594, -- 02: LDA 94
    391, -- 03: STA 91      this number
    595, -- 04: LDA 95
    392, -- 05: STA 92      the number after it
    590, -- 06: LDA 90
    720, -- 07: BRZ 20
    591, -- 08: LDA 91
    902, -- 09: OUT
    192, -- 10: ADD 92
    393, -- 11: STA 93
    592, -- 12: LDA 92
    391, -- 13: STA 91
    593, -- 14: LDA 93
    392, -- 15: STA 92
    590, -- 16: LDA 90
    295, -- 17: SUB 95
    390, -- 18: STA 90
    606, -- 19: BRA 06
    0]   -- 20: HLT
  data := [(94, 0), (95, 1)]
  inputs := [15]
  expected := [0, 1, 1, 2, 3, 5, 8, 13, 21, 34, 55, 89, 144, 233, 377]

/-- The countdown with words that need 32 bits. -/
def countdownBig : Sample where
  name := "countdown-big"
  description := "Count down from one billion in steps of 100 million"
  cells := countdown.cells
  data := [(90, 1000000000), (91, 100000000)]
  expected := [1000000000, 900000000, 800000000, 700000000, 600000000, 500000000, 400000000,
    300000000, 200000000, 100000000, 0]
  variants := [.lmc32, .lmc64]

/-- The largest of three words that need 64 bits. -/
def maxOfThreeBig : Sample where
  name := "max3-big"
  description := "Largest of three 64-bit inputs"
  cells := maxOfThree.cells
  inputs := [9223372036854775000, 5000000000000000000, 7777777777777777777]
  expected := [9223372036854775000]
  variants := [.lmc64]

/-- A product that needs 64 bits. -/
def multiplicationBig : Sample where
  name := "multiply-big"
  description := "One billion times 5000 by repeated addition"
  cells := multiplication.cells
  data := multiplication.data
  inputs := [1000000000, 5000]
  expected := [5000000000000]
  variants := [.lmc64]

/-- All samples, in the order in which they are listed. -/
def catalogue : List Sample :=
  [addition, countdown, maxOfThree, multiplication, factorial, fibonacci, countdownBig,
    maxOfThreeBig, multiplicationBig]

/-- The sample of a name. The case of ASCII letters does not matter. -/
def find? (name : String) : Option Sample :=
  catalogue.find? fun s => s.name.toList = name.toList.map Char.toLower

@[simp] theorem preset_nil (m : Machine) : preset [] m = m := rfl

@[simp] theorem preset_cons (cell : Nat × Int) (rest : List (Nat × Int)) (m : Machine) :
    preset (cell :: rest) m = preset rest (m.loadAt cell.1 [cell.2]) := by
  rw [preset, preset, List.foldl_cons]

/-- The names are in lower case, so that they can be compared with a name in lower case. -/
example : catalogue.all (fun s => s.name.toList.map Char.toLower = s.name.toList) = true := by
  decide +kernel

end Sample

end LittleMan
