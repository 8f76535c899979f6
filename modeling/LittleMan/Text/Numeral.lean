/-!
# Decimal numerals

Numbers are written in decimal, a minus sign in front of the negative ones, and may be filled up
with zeros to a total width in which the sign counts. They are read back with an optional sign,
one or more ASCII digits, and a range; reading goes from left to right and the first fault wins.

## Main definitions

* `Numeral.signed`, `Numeral.padded` — the written forms
* `Numeral.readSigned`, `Numeral.readUnsigned` — reading within a range
* `Numeral.greatestCount` — the range of counts
* `Numeral.Fault` — why a numeral is refused
-/

namespace LittleMan

namespace Numeral

/-- The sign of a written number: a minus sign or nothing. -/
def sign (n : Int) : List Char :=
  if n < 0 then ['-'] else []

/-- The decimal digits of a number without its sign. -/
def digits (n : Int) : List Char :=
  Nat.toDigits 10 n.natAbs

/-- A number in decimal. -/
def signed (n : Int) : List Char :=
  sign n ++ digits n

/-- A number in decimal, with zeros between sign and digits up to a total width. -/
def padded (width : Nat) (n : Int) : List Char :=
  sign n ++ List.replicate (width - ((sign n).length + (digits n).length)) '0' ++ digits n

/-- A number as a string. -/
def plain (n : Int) : String :=
  String.ofList (signed n)

/-- A number as a string that is at least `width` characters wide. -/
def wide (width : Nat) (n : Int) : String :=
  String.ofList (padded width n)

@[simp] theorem padded_zero (n : Int) : padded 0 n = signed n := by
  simp [padded, signed]

@[simp] theorem toList_plain (n : Int) : (plain n).toList = signed n := by
  simp [plain]

@[simp] theorem toList_wide (width : Nat) (n : Int) : (wide width n).toList = padded width n := by
  simp [wide]

/-- Why a text is not a numeral in the range asked for. -/
inductive Fault
  /-- There is nothing to read. -/
  | empty
  /-- A character is not a digit, or a sign stands alone. -/
  | invalidDigit
  /-- The number is above the range. -/
  | tooLarge
  /-- The number is below the range. -/
  | tooSmall
  deriving DecidableEq

/-- The wording of a fault. -/
def Fault.message : Fault → String
  | .empty => "cannot parse integer from empty string"
  | .invalidDigit => "invalid digit found in string"
  | .tooLarge => "number too large to fit in target type"
  | .tooSmall => "number too small to fit in target type"

/-- Read digits from left to right after `seen`. The first character that is no digit, or that
takes the number past `limit`, decides the fault. -/
def readDigits (limit : Nat) (past : Fault) : Nat → List Char → Except Fault Nat
  | seen, [] => .ok seen
  | seen, c :: rest =>
    if c.isDigit then
      let next := seen * 10 + (c.toNat - '0'.toNat)
      if next ≤ limit then readDigits limit past next rest else .error past
    else .error .invalidDigit

/-- Read a whole number of at least one digit, up to `limit`. -/
def readNat (limit : Nat) (past : Fault) (s : List Char) : Except Fault Nat :=
  if s.isEmpty then .error .invalidDigit else readDigits limit past 0 s

/-- Read a number from `least` to `greatest` with an optional sign. -/
def readSigned (least greatest : Int) : List Char → Except Fault Int
  | [] => .error .empty
  | c :: rest =>
    if c = '-' then (readNat least.natAbs .tooSmall rest).map fun (n : Nat) => -(n : Int)
    else if c = '+' then (readNat greatest.toNat .tooLarge rest).map fun (n : Nat) => (n : Int)
    else (readNat greatest.toNat .tooLarge (c :: rest)).map fun (n : Nat) => (n : Int)

/-- Read a number up to `greatest` with an optional plus sign. -/
def readUnsigned (greatest : Nat) : List Char → Except Fault Nat
  | [] => .error .empty
  | c :: rest =>
    if c = '+' then readNat greatest .tooLarge rest else readNat greatest .tooLarge (c :: rest)

/-- The greatest count that 64 bits hold. -/
def greatestCount : Nat := 0xFFFFFFFFFFFFFFFF

example : padded 3 (-5) = ['-', '0', '5'] := by decide
example : padded 2 100 = ['1', '0', '0'] := by decide
example : readSigned (-8) 7 ['-', '0', '8'] = .ok (-8) := by rfl
example : readSigned (-8) 7 ['-', '9', 'x'] = .error .tooSmall := by rfl
example : readSigned (-8) 7 ['+'] = .error .invalidDigit := by rfl

end Numeral

end LittleMan
