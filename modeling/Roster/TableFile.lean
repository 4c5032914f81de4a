import Roster.Address
import Roster.Compressed
import Roster.Location

/-!
# Files of Tables

A table is looked for under its path and, unless the path has the ending of a compressed
file, under the path with each of these endings. A path is also taken for an address,
whose host and path under the own directory are looked for in the same way. A file found
only there counts as found, but it is opened under the path itself, which then fails.

A path under the own directory may end with a slash, and then nothing but a directory
stands there. It is taken for an address in its turn, which has no such slash any more.

## Main definitions

* `TableFile.Spot`: A path as it was given, or one under the own directory.
* `TableFile.find?`: Where a table is found.
* `TableFile.read`: The text of a table.
-/

namespace Roster

namespace TableFile

/-! ## Paths -/

/-- A path as it was given, or one under the own directory. -/
inductive Spot where
  | given (path : String)
  | own (path : String)

namespace Spot

/-- The path of a spot. -/
def path : Spot → String
  | .given path => path
  | .own path => path

/-- With some characters behind the path. -/
def extend (ending : String) : Spot → Spot
  | .given path => .given (path ++ ending)
  | .own path => .own (path ++ ending)

/-- The place of a spot. -/
def place : Spot → Location
  | .given path => Location.ofString path
  | .own path => { Location.ofString path with slashes := 0 }

/-- What stands at a spot, where a file ends the way for a slash behind it. -/
def entry (look : Location → Entry) (s : Spot) : Entry :=
  match s, look s.place with
  | .own path, .file text => if path.toList.getLast? == some '/' then .blocked else .file text
  | _, entry => entry

/-- The names of a path with each `..` resolved; one with nothing before it is dropped. -/
def resolve : (done : List String) → List String → List String
  | done, [] => done.reverse
  | done, name :: rest => resolve (if name == ".." then done.tail else name :: done) rest

/-- A path without points and slashes at its front. -/
def bare (cs : List Char) : String :=
  let names := resolve [] (Location.ofString (String.ofList cs)).names
  String.ofList (("/".intercalate names).toList.dropWhile fun c => c == '/' || c == '.')

/-- The address that a spot may mean. -/
def address (s : Spot) : Except Fault Address :=
  let cs := match s with
    | .given path => path.toList
    | .own path => '/' :: path.toList
  (Address.ofChars cs).mapError .address

/-- The spot under the own directory that a spot may mean. -/
def localized (s : Spot) : Except Fault Spot :=
  s.address.map fun address =>
    let host := bare address.host
    .own (if host.isEmpty then bare address.path else host ++ "/" ++ bare address.path)

/-- The ending of a path: the last point of its last name and what follows, unless nothing but
    points stands before it. -/
def ending (s : Spot) : String :=
  let name := ((Address.behindLast '/' s.path.toList).dropWhile (· == '.')).reverse
  if name.contains '.' then
    String.ofList ('.' :: (name.takeWhile (· != '.')).reverse)
  else ""

/-- A spot, and the spots with the endings of compressed files if it has none of them. -/
def variants (s : Spot) : List Spot :=
  if (Compression.ofEnding? s.ending).isSome then [s]
  else s :: Compression.endings.map fun (added, _) => s.extend added

end Spot

/-! ## The search -/

/-- All spots at which a table is looked for. What is the address of another machine is looked
    for in the own directory first. -/
def candidates (path : String) : Except Fault (List Spot) := do
  let address ← (Spot.given path).address
  let own ← (Spot.given path).localized
  if address.scheme.isEmpty || address.host.isEmpty then
    return (Spot.given path).variants ++ own.variants
  else return own.variants ++ (Spot.given path).variants

/-- The first of some spots at which something stands, there or at what it means in the own
    directory. -/
def findAmong (look : Location → Entry) : List Spot → Except Fault (Option Spot)
  | [] => .ok none
  | s :: rest =>
    if (s.entry look).exists then .ok (some s)
    else
      s.localized.bind fun own =>
        if (own.entry look).exists then .ok (some s) else findAmong look rest

/-- Where a table is found. -/
def find? (look : Location → Entry) (path : String) : Except Fault (Option Spot) :=
  (candidates path).bind (findAmong look)

/-- All places that a search may look at. -/
def places (place : Location) : List Location :=
  match candidates place.toString with
  | .error _ => []
  | .ok spots =>
    spots.flatMap fun s => s.place :: (s.localized.toOption.map Spot.place).toList

/-- The text of a table. -/
def read (look : Location → Entry) (place : Location) : Except Fault String := do
  match ← find? look place.toString with
  | none => .error (.missingTable place.toString)
  | some found =>
    let lookHere (_ : Location) : Entry := found.entry look
    match Compression.ofEnding? found.ending with
    | none => readText lookHere found.place
    | some form => (readRaw lookHere found.place).bind form.unpack

end TableFile

end Roster
