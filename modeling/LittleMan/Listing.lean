import LittleMan.Instruction
import LittleMan.Text.Layout

/-!
# Listings

A listing shows each word of a program on a line of its own: its address, its assembly text in a
column of eight, and the word itself.

## Main definitions

* `Listing.assembly` — the assembly text of a word
* `Listing.row`, `Listing.ofCells` — a line, and a whole listing
-/

namespace LittleMan

namespace Listing

/-- The assembly text of a word. -/
def assembly (w : Int) : String :=
  (Instruction.decode w).text

/-- The line of a word at an address. -/
def row (address : Nat) (w : Int) : String :=
  Numeral.wide 2 address ++ ": " ++ Text.alignLeft 8 (assembly w) ++ " // " ++ Numeral.wide 3 w

/-- The two comment lines and the blank line above a listing. -/
def heading : String :=
  "// LMC Disassembly\n// ---------------\n\n"

/-- The listing of a program that starts at mailbox zero. -/
def ofCells (cells : List Int) : String :=
  heading ++ Text.concat (cells.zipIdx.map fun cell => row cell.2 cell.1 ++ "\n")

end Listing

end LittleMan
