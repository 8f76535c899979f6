import LittleMan.Screen.Picture

/-!
# Wrapping

A long row is broken at its blanks. Words are placed as long as they fit; a word that does not fit
begins a new row, and the blanks at the break disappear, as do blanks at the start. A word that is
wider than a row on its own is cut.

## Main definitions

* `Row.words` — the words of a row, each with the blanks in front of it
* `Row.wrap` — the rows of a given width
-/

namespace LittleMan

namespace Row

/-- Whether a cell shows a blank. -/
def isBlankCell (c : Cell) : Bool :=
  c.glyph = ' '

/-- The words of a row in order, each with the blanks in front of it. Blanks at the end belong to
an empty word. -/
def words : Row → List (Row × Row)
  | [] => []
  | c :: rest =>
    match words rest with
    | [] => if isBlankCell c then [([c], [])] else [([], [c])]
    | (gap, word) :: later =>
      if isBlankCell c then (c :: gap, word) :: later
      else if gap.isEmpty then ([], c :: word) :: later
      else ([], [c]) :: (gap, word) :: later

/-- A word cut into the full rows it covers and the rest. `fuel` bounds the number of cuts. -/
def cut (width : Nat) : Nat → Row → List Row × Row
  | 0, word => ([], word)
  | fuel + 1, word =>
    if width < word.length then
      let (full, rest) := cut width fuel (word.drop width)
      (word.take width :: full, rest)
    else ([], word)

/-- Place words after `line`, which is the row begun last. -/
def place (width : Nat) (line : Row) : List (Row × Row) → List Row
  | [] => [line]
  | (gap, word) :: rest =>
    if !line.isEmpty && line.length + gap.length + word.length ≤ width then
      place width (line ++ gap ++ word) rest
    else if word.isEmpty then place width line rest
    else
      let (full, start) := cut width word.length word
      let begun := if line.isEmpty then full else line :: full
      begun ++ place width start rest

/-- The rows of a given width that a row is broken into. -/
def wrap (width : Nat) (row : Row) : List Row :=
  place width [] row.words

example : (wrap 6 (plain "In: 10, 9, 8, 7")).map (·.map Cell.glyph) =
    ["In:".toList, "10, 9,".toList, "8, 7".toList] := by
  decide +kernel

end Row

end LittleMan
