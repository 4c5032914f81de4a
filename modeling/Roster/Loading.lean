import Roster.Config
import Roster.Cost.Labelled
import Roster.Table
import Roster.TableFile
import Roster.Yaml.Document

/-!
# Configurations and Matrices from Files

A configuration is a document with a `solver` section. A cost matrix is a document with
costs and labels if the ending of its file says so, and a table without labels if not.

A document for a matrix has to be a mapping, but one that counts as false is taken to be
an empty mapping; what it does not hold is left to the defaults.

## Main definitions

* `Config.load`: A configuration from a file.
* `CostMatrix.load`: A cost matrix from a file.
-/

namespace Roster

/-- The configuration in a file. -/
def Config.load (look : Location → Entry) (place : Location) : Except Fault Config := do
  let text ← readText look place
  let document ← Yaml.read text
  Config.ofDocument document

namespace CostMatrix

/-- The endings of the files that hold documents. -/
def documentEndings : List String := [".yaml", ".yml"]

/-- The matrix that a document from a place describes. -/
def ofDocument (place : Location) (document : Datum) : Except Fault CostMatrix :=
  let part (entries : List (Datum × Datum)) (name : String) (otherwise : Datum) : Datum :=
    (Datum.lookup? name entries).getD otherwise
  if !document.truthy then build (.rows (.list [])) .null .null
  else
    match document.opened with
    | .mapping entries =>
      build (.rows (part entries "costs" (.list []))) (part entries "workers" .null)
        (part entries "jobs" .null)
    | other => .error (.matrix (.notMapping place.toString other.kindName))

/-- The matrix in a file. -/
def load (look : Location → Entry) (place : Location) : Except Fault CostMatrix := do
  if documentEndings.contains place.extension then
    let text ← readText look place
    let document ← Yaml.read text
    ofDocument place document
  else
    let text ← TableFile.read look place
    let tensor ← Table.read text
    build (.array tensor) .null .null

/-- The places at which the file of a matrix is looked for. -/
def places (place : Location) : List Location := place :: TableFile.places place

end CostMatrix

end Roster
