import LittleMan.Memory
import LittleMan.Text.Blank

/-!
# Mailbox ranges

A range of mailboxes as it is written on the command line: one address, or two with a hyphen
between them. Either side of the hyphen may be left out and then stands for that end of memory;
nothing at all stands for mailbox zero. Blanks around an address do not matter.

## Main definitions

* `MailboxRange` — a range that lies in memory and is not empty
* `MailboxRange.parse` — a range from its written form
* `RangeError` — why a text is no range
-/

namespace LittleMan

/-- A range of mailboxes, both ends included. -/
structure MailboxRange where
  /-- The first mailbox. -/
  first : Nat
  /-- The last mailbox. -/
  last : Nat
  /-- The range is not empty. -/
  first_le_last : first ≤ last
  /-- The range lies in memory. -/
  last_le : last ≤ 99
  deriving DecidableEq

/-- Why a text is no range. -/
inductive RangeError
  /-- A part of the text is not the address of a mailbox. -/
  | notMailbox (part : String)
  /-- The ends are the wrong way round. -/
  | reversed (first last : Nat)
  deriving DecidableEq

/-- The wording of a range error. -/
def RangeError.message : RangeError → String
  | .notMailbox part => "`" ++ part ++ "` is not a mailbox (0-99)"
  | .reversed first last =>
    "start " ++ Numeral.plain first ++ " is after end " ++ Numeral.plain last

namespace MailboxRange

/-- The mailbox that one side of a range names, which is `missing` if there is nothing. -/
def side (part : List Char) (missing : Fin 100) : Except RangeError (Fin 100) :=
  let text := Text.trim part
  if text.isEmpty then .ok missing
  else
    match Numeral.readUnsigned Numeral.greatestCount text with
    | .ok a => if h : a < 100 then .ok ⟨a, h⟩ else .error (.notMailbox (String.ofList text))
    | .error _ => .error (.notMailbox (String.ofList text))

/-- The range between two mailboxes. -/
def between (a b : Fin 100) : Except RangeError MailboxRange :=
  if h : a.val ≤ b.val then .ok ⟨a.val, b.val, h, Nat.le_of_lt_succ b.isLt⟩
  else .error (.reversed a.val b.val)

/-- A range from its written form. The first hyphen divides it. -/
def parseText (s : List Char) : Except RangeError MailboxRange :=
  match s.dropWhile (· ≠ '-') with
  | [] => do
    let a ← side s 0
    between a a
  | _ :: right => do
    let a ← side (s.takeWhile (· ≠ '-')) 0
    let b ← side right 99
    between a b

/-- A range from its written form. -/
def parse (s : String) : Except RangeError MailboxRange :=
  parseText s.toList

end MailboxRange

end LittleMan
