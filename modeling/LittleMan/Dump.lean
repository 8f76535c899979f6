import LittleMan.Text.Numeral

/-!
# Dumps

A dump is a tree of numbers, labels, lists and records, and has two written forms: a compact one
without blanks, and an indented one with one item a line. A label is a plain word; it is written
between double quotes as it stands, so it must hold neither quotes nor backslashes.

## Main definitions

* `Dump` — the tree
* `Dump.compact`, `Dump.indented` — its written forms
-/

namespace LittleMan

/-- A tree of numbers, labels, lists and records. -/
inductive Dump
  | number (n : Int)
  | label (s : String)
  | list (items : List Dump)
  | record (fields : List (String × Dump))

namespace Dump

/-- A plain word between double quotes. -/
def quoted (s : String) : List Char :=
  '"' :: (s.toList ++ ['"'])

mutual

/-- A dump without blanks. -/
def compact : Dump → List Char
  | number n => Numeral.signed n
  | label s => quoted s
  | list [] => ['[', ']']
  | list (d :: rest) => '[' :: (d.compact ++ compactItems rest)
  | record [] => ['\x7b', '\x7d']
  | record ((key, d) :: rest) =>
    '\x7b' :: (quoted key ++ ':' :: (d.compact ++ compactFields rest))

/-- The items of a list after the first one, and the end of the list. -/
def compactItems : List Dump → List Char
  | [] => [']']
  | d :: rest => ',' :: (d.compact ++ compactItems rest)

/-- The fields of a record after the first one, and the end of the record. -/
def compactFields : List (String × Dump) → List Char
  | [] => ['\x7d']
  | (key, d) :: rest => ',' :: (quoted key ++ ':' :: (d.compact ++ compactFields rest))

end

/-- A new line, indented by two blanks for each level. -/
def newLine (depth : Nat) : List Char :=
  '\n' :: List.replicate (2 * depth) ' '

mutual

/-- A dump with one item a line, inside `depth` levels. -/
def indented (depth : Nat) : Dump → List Char
  | number n => Numeral.signed n
  | label s => quoted s
  | list [] => ['[', ']']
  | list (d :: rest) =>
    '[' :: (newLine (depth + 1) ++ indented (depth + 1) d ++ indentedItems depth rest)
  | record [] => ['\x7b', '\x7d']
  | record ((key, d) :: rest) =>
    '\x7b' :: (newLine (depth + 1) ++ quoted key ++ ':' :: ' ' :: indented (depth + 1) d
      ++ indentedFields depth rest)

/-- The items of a list after the first one, and the end of the list. -/
def indentedItems (depth : Nat) : List Dump → List Char
  | [] => newLine depth ++ [']']
  | d :: rest =>
    ',' :: (newLine (depth + 1) ++ indented (depth + 1) d ++ indentedItems depth rest)

/-- The fields of a record after the first one, and the end of the record. -/
def indentedFields (depth : Nat) : List (String × Dump) → List Char
  | [] => newLine depth ++ ['\x7d']
  | (key, d) :: rest =>
    ',' :: (newLine (depth + 1) ++ quoted key ++ ':' :: ' ' :: indented (depth + 1) d
      ++ indentedFields depth rest)

end

/-- A list of numbers. -/
def numbers (ns : List Int) : Dump :=
  list (ns.map number)

example : compact (list [number (-1), label "x", list []]) = "[-1,\"x\",[]]".toList := by
  decide +kernel

end Dump

end LittleMan
