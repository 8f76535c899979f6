/-!
# Blank characters

The characters with the property White_Space, and trimming them from both ends of a text. Texts
are lists of characters here: every function below is plain recursion on the list, and strings
are converted at the edges of the library.

## Main definitions

* `Text.isBlank` — membership in the table `Text.blankRanges`
* `Text.trim` — a text without the blanks at its ends

## Main results

* `Text.isBlank_iff_toNat` — which code points are blank
-/

namespace LittleMan

namespace Text

/-- The code points with the property White_Space, as ranges with both ends included. -/
def blankRanges : List (Nat × Nat) :=
  [(0x09, 0x0D), (0x20, 0x20), (0x85, 0x85), (0xA0, 0xA0), (0x1680, 0x1680), (0x2000, 0x200A),
    (0x2028, 0x2029), (0x202F, 0x202F), (0x205F, 0x205F), (0x3000, 0x3000)]

/-- Whether a character is blank. -/
def isBlank (c : Char) : Bool :=
  blankRanges.any fun range => decide (range.1 ≤ c.toNat) && decide (c.toNat ≤ range.2)

/-- **Which characters are blank**, by their code points: those from the tab to the carriage return,
the space, the next line, the no-break space, the Ogham space mark, the spaces and the separators
among the general punctuation, and the ideographic space. -/
theorem isBlank_iff_toNat {c : Char} :
    isBlank c = true ↔
      0x09 ≤ c.toNat ∧ c.toNat ≤ 0x0D ∨ c.toNat = 0x20 ∨ c.toNat = 0x85 ∨ c.toNat = 0xA0 ∨
        c.toNat = 0x1680 ∨ 0x2000 ≤ c.toNat ∧ c.toNat ≤ 0x200A ∨ c.toNat = 0x2028 ∨
        c.toNat = 0x2029 ∨ c.toNat = 0x202F ∨ c.toNat = 0x205F ∨ c.toNat = 0x3000 := by
  simp only [isBlank, blankRanges, List.any_cons, List.any_nil, Bool.or_false, Bool.or_eq_true,
    Bool.and_eq_true, decide_eq_true_eq]
  omega

/-- The table holds 25 code points, and the narrow look-alikes beside it are not among them. -/
example : (blankRanges.map fun range => range.2 + 1 - range.1).sum = 25 := by
  decide

example : [0x1C, 0x180E, 0x200B, 0xFEFF].all (fun n => !isBlank (Char.ofNat n)) = true := by
  decide

/-- A text without the blanks at its start. -/
def trimStart (s : List Char) : List Char :=
  s.dropWhile isBlank

/-- A text without the blanks at its end. -/
def trimEnd (s : List Char) : List Char :=
  (s.reverse.dropWhile isBlank).reverse

/-- A text without the blanks at either end. -/
def trim (s : List Char) : List Char :=
  trimEnd (trimStart s)

@[simp] theorem trimStart_nil : trimStart [] = [] := rfl

@[simp] theorem trimEnd_nil : trimEnd [] = [] := rfl

@[simp] theorem trim_nil : trim [] = [] := rfl

theorem trimStart_of_not_isBlank {c : Char} (h : isBlank c = false) (s : List Char) :
    trimStart (c :: s) = c :: s := by
  simp [trimStart, h]

theorem trimEnd_of_not_isBlank {c : Char} (h : isBlank c = false) (s : List Char) :
    trimEnd (s ++ [c]) = s ++ [c] := by
  simp [trimEnd, h]

theorem trim_of_not_isBlank {s : List Char} (h : ∀ c ∈ s, isBlank c = false) : trim s = s := by
  cases s with
  | nil => rfl
  | cons c rest =>
    rw [trim, trimStart_of_not_isBlank (h c List.mem_cons_self),
      ← List.dropLast_concat_getLast (List.cons_ne_nil c rest)]
    exact trimEnd_of_not_isBlank (h _ (List.getLast_mem _)) _

/-- A text is trimmed already if a character that is not blank stands at either end. -/
theorem trim_of_ends {c d : Char} (hc : isBlank c = false) (hd : isBlank d = false)
    (s : List Char) : trim (c :: (s ++ [d])) = c :: (s ++ [d]) := by
  rw [trim, trimStart_of_not_isBlank hc, ← List.cons_append, trimEnd_of_not_isBlank hd]

/-- A blank at the end is trimmed. -/
theorem trim_concat_of_isBlank {c : Char} (h : isBlank c = true) (s : List Char) :
    trim (s ++ [c]) = trim s := by
  rw [trim, trim, trimStart, trimStart, List.dropWhile_append]
  split
  · next hs =>
    rw [List.isEmpty_iff.1 hs]
    simp [trimEnd, h]
  · simp [trimEnd, h]

theorem isBlank_of_isDigit {c : Char} (h : c.isDigit = true) : isBlank c = false := by
  have hc : 48 ≤ c.toNat ∧ c.toNat ≤ 57 := Char.isDigit_iff_toNat.1 h
  rw [Bool.eq_false_iff, ne_eq, isBlank_iff_toNat]
  omega

end Text

end LittleMan
