/-!
# Laying out text

Texts one after another, texts in a column, and lists with commas.

## Main definitions

* `Text.concat` — texts one after another
* `Text.alignLeft`, `Text.alignRight` — a text in a column
* `Text.commaSeparated` — a list in words
-/

namespace LittleMan

namespace Text

/-- Texts one after another. -/
def concat (parts : List String) : String :=
  String.ofList (parts.flatMap String.toList)

/-- A text filled up with blanks on its right to a column width. -/
def alignLeft (width : Nat) (s : String) : String :=
  s ++ String.ofList (List.replicate (width - s.length) ' ')

/-- A text filled up with blanks on its left to a column width. -/
def alignRight (width : Nat) (s : String) : String :=
  String.ofList (List.replicate (width - s.length) ' ') ++ s

/-- Texts with a comma and a blank between them. -/
def commaSeparated : List String → String
  | [] => ""
  | [s] => s
  | s :: rest => s ++ ", " ++ commaSeparated rest

@[simp] theorem toList_concat (parts : List String) :
    (concat parts).toList = parts.flatMap String.toList := by
  simp [concat]

@[simp] theorem toList_alignLeft (width : Nat) (s : String) :
    (alignLeft width s).toList = s.toList ++ List.replicate (width - s.length) ' ' := by
  simp [alignLeft]

end Text

end LittleMan
