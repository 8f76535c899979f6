/-!
# Lines

A stream of symbols is cut into lines in the same way whether its symbols are characters or
bytes: a line ends at a line feed, a carriage return right before that line feed belongs to the
ending, and a stream that ends without a line feed still ends its last line. A line feed at the
very end opens no further line.

## Main definitions

* `Text.linesBy` — the lines of a stream, for any line feed and carriage return symbols
* `Text.lines`, `Text.byteLines` — the lines of a text and of a byte stream
-/

namespace LittleMan

namespace Text

section Stream

variable {α : Type} [DecidableEq α]

/-- The lines of a stream whose line feed is `feed` and whose carriage return is `ret`. -/
def linesBy (feed ret : α) : List α → List (List α)
  | [] => []
  | c :: rest =>
    if c = feed then [] :: linesBy feed ret rest
    else if c = ret ∧ rest.head? = some feed then linesBy feed ret rest
    else
      match linesBy feed ret rest with
      | [] => [[c]]
      | line :: later => (c :: line) :: later

@[simp] theorem linesBy_nil (feed ret : α) : linesBy feed ret [] = [] := rfl

@[simp] theorem linesBy_feed (feed ret : α) (rest : List α) :
    linesBy feed ret (feed :: rest) = [] :: linesBy feed ret rest := by
  simp [linesBy]

end Stream

/-- The lines of a text. -/
def lines (s : List Char) : List (List Char) :=
  linesBy '\n' '\r' s

/-- The lines of a byte stream. -/
def byteLines (bytes : List UInt8) : List (List UInt8) :=
  linesBy 10 13 bytes

end Text

end LittleMan
