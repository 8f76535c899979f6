/-!
# Control sequences

Text that is meant for a terminal may hold control sequences, which move the cursor or change the
colour. Where no terminal reads the text, they are left out. An escape character begins a sequence,
and the characters after it say of which kind it is and where it ends. Other control characters are
left out one by one, but for the tab, the line feed, the form feed and the carriage return.

These four are shown even inside a sequence of letters and parameters. What follows them is shown
too, up to the next character that cannot be shown; there the sequence goes on.

## Main definitions

* `Control.Mode`, `Control.Mode.next` — where in a sequence a character stands
* `Control.strip` — a text without control sequences and characters
-/

namespace LittleMan

namespace Text

namespace Control

/-- The four control characters that only space out a text. -/
def isSpacing (c : Char) : Bool :=
  c = '\t' || c = '\n' || c = '\x0c' || c = '\r'

/-- Whether a character can be shown. The delete character cannot. -/
def isVisible (c : Char) : Bool :=
  (decide (0x20 ≤ c.toNat) && decide (c.toNat ≠ 0x7f)) || isSpacing c

/-- Where in a sequence a character stands. -/
inductive Mode
  /-- Outside of any sequence. -/
  | ground
  /-- Right behind an escape character. -/
  | escape
  /-- In an escape sequence that one more letter or digit ends. -/
  | escapeLetter
  /-- Among the parameters of a sequence, which a letter ends. -/
  | parameters
  /-- Right behind the start of a device control string. -/
  | device
  /-- Among the parameters of a device control string. -/
  | deviceParameters
  /-- Behind the parameters of a device control string. -/
  | deviceLetter
  /-- In the body of a string for a device or a program. -/
  | body
  /-- In a command to the operating system, which a bell ends. -/
  | command
  deriving DecidableEq

namespace Mode

/-- Whether the code point of a character lies between two bounds. -/
def between (low high : Nat) (c : Char) : Bool :=
  decide (low ≤ c.toNat) && decide (c.toNat ≤ high)

/-- Whether a character ends the body of a string: its encoding holds the string terminator. -/
def isTerminator (c : Char) : Bool :=
  (String.utf8EncodeChar c).contains 0x9c

/-- The mode behind a character. Cancel and substitute end any sequence, and an escape character
begins a new one. -/
def next (m : Mode) (c : Char) : Mode :=
  if c = '\x18' || c = '\x1a' then ground
  else if c = '\x1b' then escape
  else
    match m with
    | ground => ground
    | escape =>
      if c = '[' then parameters
      else if c = ']' then command
      else if c = 'P' then device
      else if c = 'X' || c = '^' || c = '_' then body
      else if between 0x20 0x2f c then escapeLetter
      else if between 0x30 0x7e c then ground
      else escape
    | escapeLetter => if between 0x30 0x7e c then ground else escapeLetter
    | parameters => if between 0x40 0x7e c then ground else parameters
    | device =>
      if between 0x20 0x2f c then deviceLetter
      else if between 0x30 0x3f c then deviceParameters
      else if between 0x40 0x7e c then body
      else device
    | deviceParameters =>
      if between 0x20 0x2f c then deviceLetter
      else if between 0x3c 0x7e c then body
      else deviceParameters
    | deviceLetter => if between 0x30 0x7e c then body else deviceLetter
    | body => if isTerminator c then ground else body
    | command => if c = '\x07' then ground else command

/-- Whether a character is shown in a mode. -/
def shows (m : Mode) (c : Char) : Bool :=
  match m with
  | ground => isVisible c
  | escape | escapeLetter | parameters => isSpacing c
  | device | deviceParameters | deviceLetter | body | command => false

end Mode

/-- The characters that are shown, from a mode on. `showing` tells whether the character before was
shown. -/
def scan (m : Mode) (showing : Bool) : List Char → List Char
  | [] => []
  | c :: rest =>
    if showing && isVisible c then
      c :: scan (if c.toNat < 0x80 then m else .ground) true rest
    else if m.shows c then c :: scan (m.next c) true rest
    else scan (m.next c) false rest

/-- A text without control sequences and characters. -/
def strip (s : List Char) : List Char :=
  scan .ground false s

example : strip "\x1b[1;31mred\x1b[0m".toList = "red".toList := by decide +kernel
example : strip "a\x07b\x0cc".toList = "ab\x0cc".toList := by decide +kernel
example : strip "\x1b]0;title\x07text".toList = "text".toList := by decide +kernel

end Control

end Text

end LittleMan
