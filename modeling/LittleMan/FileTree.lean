/-!
# File trees

A tree of files and directories as a value, with the rules by which a path is followed in it. Paths
are relative to the root of the tree, which is its own parent. A path is followed name by name:
each name but the last must be that of a directory, a dot stays, two dots go up, and empty names
between slashes are passed over.

## Main definitions

* `FileTree`, `FileTree.Entry` — the tree
* `FileTree.locate` — where a path leads
* `FileTree.read`, `FileTree.write` — contents of files
* `FileError` — why a file cannot be read or written
-/

namespace LittleMan

/-- Why a file cannot be read or written. -/
inductive FileError
  | notFound
  | isADirectory
  | notADirectory
  | nameTooLong
  /-- What was read is not text. -/
  | notText
  /-- Any other reason, in the words of the system. -/
  | other (text : String)
  deriving DecidableEq, Inhabited

/-- The wording of an error. -/
def FileError.text : FileError → String
  | notFound => "No such file or directory (os error 2)"
  | isADirectory => "Is a directory (os error 21)"
  | notADirectory => "Not a directory (os error 20)"
  | nameTooLong => "File name too long (os error 36)"
  | notText => "stream did not contain valid UTF-8"
  | other text => text

/-- The wording of an error about the file at a path. -/
def FileError.message (e : FileError) (path : String) : String :=
  "I/O error on " ++ path ++ ": " ++ e.text

/-- What a tree holds at a place. -/
inductive FileTree.Entry
  | directory
  | file (bytes : List UInt8)
  deriving DecidableEq

/-- Files and directories by their place, which is the list of names from the root. The root is a
directory that is always there. -/
structure FileTree where
  /-- The entries below the root. -/
  entries : List (List String × FileTree.Entry) := []
  deriving DecidableEq, Inhabited

namespace FileTree

/-- A place with what is there, if anything is. -/
structure Spot where
  /-- The names from the root. -/
  place : List String
  /-- What is there. -/
  entry : Option Entry
  deriving DecidableEq

/-- The most bytes that a name may have. -/
def longestName : Nat := 255

/-- What is at a place. -/
def entryAt (t : FileTree) (place : List String) : Option Entry :=
  if place.isEmpty then some .directory else t.entries.lookup place

/-- Follow names from a place on. -/
def walk (t : FileTree) (place : List String) : List String → Except FileError Spot
  | [] => .ok ⟨place, t.entryAt place⟩
  | name :: rest =>
    match t.entryAt place with
    | none => .error .notFound
    | some (.file _) => .error .notADirectory
    | some .directory =>
      if name = "" ∨ name = "." then walk t place rest
      else if name = ".." then walk t place.dropLast rest
      else if longestName < name.utf8ByteSize then .error .nameTooLong
      else walk t (place ++ [name]) rest

/-- The names of a path, between its slashes. -/
def names (path : String) : List String :=
  path.splitOn "/"

/-- The most bytes that a path may have. -/
def longestPath : Nat := 4095

/-- Follow a path with these names. No path is empty, and none is too long. -/
def follow (t : FileTree) (path : String) (parts : List String) : Except FileError Spot :=
  if path.isEmpty then .error .notFound
  else if longestPath < path.utf8ByteSize then .error .nameTooLong
  else t.walk [] parts

/-- Where a path leads. -/
def locate (t : FileTree) (path : String) : Except FileError Spot :=
  t.follow path (names path)

/-- Whether a name stands for a directory by itself. -/
def isDots (name : String) : Bool :=
  name = "." || name = ".."

/-- The content of the file at a path. -/
def read (t : FileTree) (path : String) : Except FileError (List UInt8) :=
  match t.locate path with
  | .error e => .error e
  | .ok ⟨_, some (.file bytes)⟩ => .ok bytes
  | .ok ⟨_, some .directory⟩ => .error .isADirectory
  | .ok ⟨_, none⟩ => .error .notFound

/-- The tree with an entry put at a place. -/
def put (t : FileTree) (place : List String) (e : Entry) : FileTree :=
  ⟨(place, e) :: t.entries.filter fun other => other.1 ≠ place⟩

/-- Write a file at a path: a new one in a directory that is there, or over an old one. A path that
ends in a slash or in dots is that of a directory, and no file can be made there. -/
def write (t : FileTree) (path : String) (bytes : List UInt8) : Except FileError FileTree :=
  let parts := names path
  let last := parts.getLast?.getD ""
  if last = "" then
    let trimmed := (parts.reverse.dropWhile (· = "")).reverse
    let parent := if isDots (trimmed.getLast?.getD "") then trimmed else trimmed.dropLast
    match t.follow path (parent ++ [""]) with
    | .error e => .error e
    | .ok _ => .error .isADirectory
  else
    match t.follow path (if isDots last then parts ++ [""] else parts) with
    | .error e => .error e
    | .ok ⟨_, some .directory⟩ => .error .isADirectory
    | .ok ⟨place, _⟩ => .ok (t.put place (.file bytes))

/-- The place that names lead to from a place on, if all directories on the way are there. -/
def destination (place : List String) : List String → List String
  | [] => place
  | name :: rest =>
    if name = "" ∨ name = "." then destination place rest
    else if name = ".." then destination place.dropLast rest
    else destination (place ++ [name]) rest

/-- The tree with a directory at a place, unless something is there. -/
def withDirectory (t : FileTree) (place : List String) : FileTree :=
  if (t.entryAt place).isSome then t else t.put place .directory

/-- The tree with an entry made at a path, and with the directories on the way to it. -/
def make (t : FileTree) (path : String) (e : Entry) : FileTree :=
  let place := destination [] (names path)
  let above := (List.range place.length).map place.take
  (above.foldl withDirectory t).put place e

/-- The files that are not the same in an earlier tree, with their paths. -/
def changedSince (t earlier : FileTree) : List (String × List UInt8) :=
  t.entries.filterMap fun (place, e) =>
    match e with
    | .directory => none
    | .file bytes =>
      if earlier.entryAt place = some e then none else some ("/".intercalate place, bytes)

end FileTree

end LittleMan
