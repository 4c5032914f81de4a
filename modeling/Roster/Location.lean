import Roster.Fault

/-!
# Files by Location

A path is a list of names; empty names and single dots between slashes mean nothing, and
a path without any name is the directory itself. A path may begin at the root, which one
slash names, or two; more than two count as one. What stands at a path is a file with its
text, a directory, or nothing; a path that goes on behind a file is blocked there. A name
can be too long to look for, and so can a path, and a path with a null character leads
nowhere at all.

The parts of a program that look for files take a function from paths to what stands
there, so that they need no disk.

## Main definitions

* `Location`: A place by the names on the way.
* `Location.extension`: The ending of a path's last name.
* `Entry`: What stands at a path.
* `readText`: The text of a file, with line ends made alike.
-/

namespace Roster

/-- A place in a file system by the names on the way; `..` leads to the directory around. -/
structure Location where
  /-- The slashes before the first name: none, one or two. -/
  slashes : Nat
  names : List String
  deriving DecidableEq

namespace Location

/-- The path that a text spells. -/
def ofString (text : String) : Location where
  slashes :=
    let count := (text.toList.takeWhile (· == '/')).length
    if count ≤ 2 then count else 1
  names := (text.splitOn "/").filter fun name => !name.isEmpty && name != "."

/-- The plainest spelling of a path. -/
def toString (p : Location) : String :=
  if p.slashes = 0 ∧ p.names.isEmpty then "."
  else String.ofList (List.replicate p.slashes '/') ++ "/".intercalate p.names

/-- The ending of a name: its last point and what follows, if the point is neither its first
    nor its last character. -/
def nameEnding (name : String) : String :=
  let cs := name.toList
  let tail := cs.reverse.takeWhile (· != '.')
  let start := cs.length - tail.length - 1
  if cs.contains '.' && decide (0 < start) && !tail.isEmpty then
    String.ofList ('.' :: tail.reverse)
  else ""

/-- The ending of a path's last name, in small letters. -/
def extension (p : Location) : String :=
  match p.names.getLast? with
  | none => ""
  | some name => String.ofList ((nameEnding name).toList.map Char.toLower)

/-- The path of the directory around. -/
def parent (p : Location) : Location := { p with names := p.names.dropLast }

end Location

/-- What stands at a path. -/
inductive Entry where
  | file (text : String)
  | directory
  | missing
  /-- The path goes on behind a file. -/
  | blocked
  /-- The path, or a name on it, is too long. -/
  | overlong
  /-- The path holds a null character. -/
  | unspeakable

/-- Whether something stands at a path. -/
def Entry.exists : Entry → Bool
  | .file _ => true
  | .directory => true
  | _ => false

/-- A text in which every line ends with a line feed. -/
def unifyLineEnds : List Char → List Char
  | '\r' :: '\n' :: rest => '\n' :: unifyLineEnds rest
  | '\r' :: rest => '\n' :: unifyLineEnds rest
  | c :: rest => c :: unifyLineEnds rest
  | [] => []

/-- The text of a file as it stands there. -/
def readRaw (look : Location → Entry) (path : Location) : Except Fault String :=
  match look path with
  | .file text => .ok text
  | .directory => .error (.isDirectory path.toString)
  | .missing => .error (.missingFile path.toString)
  | .blocked => .error (.notDirectory path.toString)
  | .overlong => .error (.overlongName path.toString)
  | .unspeakable => .error .nullInPath

/-- The text of a file. -/
def readText (look : Location → Entry) (path : Location) : Except Fault String :=
  (readRaw look path).map fun text => String.ofList (unifyLineEnds text.toList)

end Roster
