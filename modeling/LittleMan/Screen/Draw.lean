import LittleMan.Debugger
import LittleMan.Screen.Wrap
import LittleMan.Text.Layout

/-!
# The screen of the debugger

Two columns of boxes. The left one shows the listing around the program counter, the registers and
the status; the right one shows memory, the channels with the latest diagnostic, and the keys. The
lower boxes have fixed heights and the upper ones take the rest.

## Main definitions

* `Debugger.listingRows`, `Debugger.registerRows`, `Debugger.memoryRows`, `Debugger.channelRows` —
  the contents of the boxes
* `Debugger.draw` — the whole screen
-/

namespace LittleMan

namespace Debugger

/-- The style of a row that shows a mailbox. -/
def cellStyle (isCurrent : Bool) (w : Int) (other : Style) : Style :=
  if isCurrent then .current else if w = 0 then .ofColor .darkGray else other

/-- A row of the listing. -/
def listingRow (m : Machine) (r : ListingRow) : Row :=
  let w := m.memory.get r.address
  Row.ofString (cellStyle r.isCurrent w {})
    ((if r.isCurrent then "▶ " else "  ") ++ Numeral.wide 2 r.address ++ ": " ++ Numeral.wide 3 w
      ++ "  " ++ r.text)

/-- The listing around the program counter. -/
def listingRows (d : Debugger) (height : Nat) : Picture :=
  (d.listing height).map (listingRow d.machine)

/-- The colour of a state. -/
def stateColor : State → Color
  | .running => .green
  | .halted => .gray
  | .faulted => .red

/-- The registers, the policy, the count of cycles and the state. -/
def registerRows (m : Machine) : Picture :=
  [Row.plain "ACC: " ++ Row.colored .white (Text.alignRight 20 (Numeral.plain m.acc))
      ++ Row.plain "   PC: " ++ Row.colored .yellow (Numeral.wide 2 m.pc),
    Row.plain "Word: " ++ Row.colored .cyan m.policy.name ++ Row.plain "   Cycles: "
      ++ Row.colored .cyan (Numeral.plain m.cycles),
    Row.plain "State: " ++ Row.colored (stateColor m.state) m.state.name]

/-- A row of the view of memory. -/
def memoryRow (m : Machine) (a : Nat) : Row :=
  let w := m.memory.get a
  Row.ofString (cellStyle (a = m.pc) w (.ofColor .white))
    (Numeral.wide 2 a ++ ": " ++ Numeral.plain w)

/-- The view of memory, from the mailbox it is scrolled to. -/
def memoryRows (d : Debugger) (height : Nat) : Picture :=
  (List.range' d.scroll (min height (Memory.size - d.scroll))).map (memoryRow d.machine)

/-- Words with commas between them. -/
def wordList (ws : List Int) : String :=
  Text.commaSeparated (ws.map Numeral.plain)

/-- The latest diagnostic, or a dash. -/
def latestDiagnostic (m : Machine) : String :=
  match m.diagnostics.back? with
  | some d => d.text
  | none => "-"

/-- Pending input, output and the latest diagnostic, broken to a width. -/
def channelRows (m : Machine) (width : Nat) : Picture :=
  [Row.plain "In:   " ++ Row.plain (wordList m.pending),
    Row.plain "Out:  " ++ Row.colored .green (wordList m.output.toList),
    Row.plain "Diag: " ++ Row.colored .red (latestDiagnostic m)].flatMap (Row.wrap width)

/-- The keys. -/
def helpRows : Picture :=
  [Row.colored .darkGray "s: Step  r: Run  p: Pause  x: Reset",
    Row.colored .darkGray "↑↓: Scroll memory  q: Quit"]

/-- The left column. -/
def leftColumn (d : Debugger) (width height : Nat) : Picture :=
  let upper := height - 9
  (Picture.box (.ofColor .cyan) " Disassembly " width upper (d.listingRows (upper - 2))).above
    ((Picture.box (.ofColor .green) " Registers " width 6 (registerRows d.machine)).above
      (Picture.box (.ofColor .white) " Status " width 3 [Row.colored .white d.status.text]))

/-- The right column. -/
def rightColumn (d : Debugger) (width height : Nat) : Picture :=
  let upper := height - 10
  (Picture.box (.ofColor .magenta) " Memory " width upper (d.memoryRows (upper - 2))).above
    ((Picture.box {} " I/O " width 6 (channelRows d.machine (width - 2))).above
      (Picture.box (.ofColor .darkGray) " Help " width 4 helpRows))

/-- The screen of a debugger: of the width, 55 parts in a hundred go to the left column. What does
not fit on the screen is cut. -/
def draw (d : Debugger) (width height : Nat) : Picture :=
  let left := width * 55 / 100
  ((d.leftColumn left height).beside (d.rightColumn (width - left) height)).fit width height

end Debugger

end LittleMan
