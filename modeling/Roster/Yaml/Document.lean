import Roster.Yaml.Assembly

/-!
# The Datum of a Document

A text holds at most one document, and a document is one datum. Tokens, nodes and values
are found one after the other, and the first that cannot be found settles what is wrong.

## Main definitions

* `read`: The datum of a text.
-/

namespace Roster

namespace Yaml

/-- The datum of a document. -/
def Document.datum (document : Document) : Except Fault Datum :=
  (Assembly.ofDocument document).map fun a => a.datum document.root

/-- The datum of a text; a text without a document holds nothing. -/
def read (text : String) : Except Fault Datum :=
  match Document.ofScan (Scan.ofText text) with
  | .error fault => .error fault
  | .ok none => .ok .null
  | .ok (some document) => document.datum

end Yaml

end Roster
