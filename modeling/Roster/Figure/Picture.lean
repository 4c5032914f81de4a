import Roster.Fault

/-!
# Kinds of Picture Files

A figure can be saved in several formats, which the ending of the file's name tells. One of them
is a text that a typesetter is to set, who has to be asked for the sizes of the letters first.
There is none, so no file of that kind can be made.

## Main definitions

* `Picture.formats`: The formats of picture files.
* `Picture.ofEnding`: The format that an ending tells.
-/

namespace Roster

namespace Picture

/-- The format of a picture that is named without an ending. -/
def defaultFormat : String := "png"

/-- The formats of picture files, each of which is the ending of its files without the point. -/
def formats : List String :=
  [defaultFormat, "svg", "svgz", "tif", "tiff", "gif", "jpg", "jpeg", "webp", "avif", "pdf", "ps",
    "eps", "raw", "rgba"]

/-- The format of a text that is to be set. -/
def textFormat : String := "pgf"

/-- The format that an ending tells, in whatever case it is written. -/
def ofEnding (ending : List Char) : Except Fault String :=
  let name := String.ofList (ending.map Char.toLower)
  if name == textFormat then .error .noTypesetter
  else if formats.contains name then .ok name
  else .error .badValue

end Picture

end Roster
