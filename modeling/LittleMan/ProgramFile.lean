import LittleMan.FileTree
import LittleMan.ProgramText

/-!
# Program files

Programs kept in files: a file is read as a byte stream and written as program text.

## Main definitions

* `ProgramText.ofFile` — a program from the content of a file
* `FileTree.loadProgram`, `FileTree.save` — programs in a file tree
-/

namespace LittleMan

/-- The program in what was read from a file. -/
def ProgramText.ofFile (content : Except FileError (List UInt8)) : Except FileError ProgramText :=
  match content with
  | .error e => .error e
  | .ok bytes =>
    match ProgramText.read bytes with
    | some text => .ok text
    | none => .error .notText

namespace FileTree

/-- Read the program in a file. -/
def loadProgram (t : FileTree) (path : String) : Except FileError ProgramText :=
  ProgramText.ofFile (t.read path)

/-- Write a program to a file. -/
def save (t : FileTree) (path : String) (cells : List Int) : Except FileError FileTree :=
  t.write path (Text.encode (ProgramText.write cells).toList)

end FileTree

end LittleMan
