/-!
# Pictures

A picture is a list of rows, a row a list of cells, a cell a character with a style. Pictures are
put together by placing them beside or above each other; a box draws a border with a title around
one and brings it to a given size.

## Main definitions

* `Color`, `Style`, `Cell`, `Row`, `Picture`
* `Row.fit`, `Picture.fit` — cutting or filling up to a size
* `Picture.beside`, `Picture.above`, `Picture.box` — putting pictures together

## Main results

* `Row.length_fit`, `Picture.length_fit`, `Picture.length_box` — sizes
-/

namespace LittleMan

/-- The colours of the screen. -/
inductive Color
  | plain | yellow | darkGray | gray | white | cyan | green | magenta | red
  deriving DecidableEq, Inhabited

/-- How a character is shown. -/
structure Style where
  /-- The colour of the character. -/
  color : Color := .plain
  /-- Whether the character is bold. -/
  bold : Bool := false
  deriving DecidableEq, Inhabited

/-- A character on the screen. -/
structure Cell where
  /-- The character. -/
  glyph : Char
  /-- How it is shown. -/
  style : Style := {}
  deriving DecidableEq, Inhabited

/-- A row of the screen. -/
abbrev Row := List Cell

/-- A rectangle of the screen, row by row. -/
abbrev Picture := List Row

namespace Style

/-- A colour without anything else. -/
def ofColor (c : Color) : Style :=
  { color := c }

/-- The style of what the program counter points to. -/
def current : Style :=
  { color := .yellow, bold := true }

end Style

namespace Row

/-- A text in one style. -/
def ofString (style : Style) (s : String) : Row :=
  s.toList.map fun c => ⟨c, style⟩

/-- A text without style. -/
def plain (s : String) : Row :=
  ofString {} s

/-- A text in a colour. -/
def colored (c : Color) (s : String) : Row :=
  ofString (.ofColor c) s

/-- Blank cells. -/
def blank (width : Nat) : Row :=
  List.replicate width ⟨' ', {}⟩

/-- A row cut or filled up to a width. -/
def fit (width : Nat) (row : Row) : Row :=
  row.take width ++ blank (width - row.length)

@[simp] theorem length_fit (width : Nat) (row : Row) : (row.fit width).length = width := by
  simp only [fit, blank, List.length_append, List.length_take, List.length_replicate]
  omega

end Row

namespace Picture

/-- A picture cut or filled up to a size. -/
def fit (width height : Nat) (p : Picture) : Picture :=
  ((p.take height).map (Row.fit width))
    ++ List.replicate (height - p.length) (Row.blank width)

/-- Two pictures side by side. -/
def beside (p q : Picture) : Picture :=
  List.zipWith (· ++ ·) p q

/-- Two pictures one above the other. -/
def above (p q : Picture) : Picture :=
  p ++ q

/-- The upper edge of a box, with the title from its second cell on. -/
def upperEdge (style : Style) (title : String) (width : Nat) : Row :=
  let inside := (Row.ofString style title).take width
  ⟨'┌', style⟩ :: (inside ++ List.replicate (width - inside.length) ⟨'─', style⟩ ++ [⟨'┐', style⟩])

/-- The lower edge of a box. -/
def lowerEdge (style : Style) (width : Nat) : Row :=
  ⟨'└', style⟩ :: (List.replicate width ⟨'─', style⟩ ++ [⟨'┘', style⟩])

/-- A row between the sides of a box. -/
def sided (style : Style) (row : Row) : Row :=
  ⟨'│', style⟩ :: (row ++ [⟨'│', style⟩])

/-- A box of a given size, border included, with a title and a picture inside. -/
def box (style : Style) (title : String) (width height : Nat) (inside : Picture) : Picture :=
  upperEdge style title (width - 2)
    :: ((inside.fit (width - 2) (height - 2)).map (sided style) ++ [lowerEdge style (width - 2)])

@[simp] theorem length_fit (width height : Nat) (p : Picture) :
    (p.fit width height).length = height := by
  simp only [fit, List.length_append, List.length_map, List.length_take, List.length_replicate]
  omega

theorem length_box (style : Style) (title : String) (width height : Nat) (inside : Picture)
    (h : 2 ≤ height) : (box style title width height inside).length = height := by
  simp only [box, List.length_cons, List.length_append, List.length_map, length_fit,
    List.length_nil]
  omega

end Picture

end LittleMan
