import Roster.Yaml.Node
import Roster.Yaml.Scalar

/-!
# Values of Nodes

A node has one value, however often it is named. A scalar has its value at once: a plain
one finds its own type, a quoted one is a text, and a tag settles the type of what it
stands before. A collection gets its parts later, after all collections that were met
before it, so that of two faults the one in the outer collection is met first, whatever
the order in the text.

A mapping takes its entries in order; of two equal keys the last value wins and the
first place stays. The entries of merged mappings come before its own, so its own win;
of several merged mappings the earlier win. A list or a mapping cannot be a key. A set is
the keys of a mapping.

When every node has its parts, the datum of a node follows them. Where it comes back to a
node that it is inside of, the datum of that node is a loop.

## Main definitions

* `Part`: The value of a node, its parts by their numbers.
* `Assembly`: The values of nodes so far, and the collections that wait for their parts.
* `Assembly.ofDocument`: The values of all nodes of a document.
* `Assembly.datum`: The datum of a node.
-/

namespace Roster

namespace Yaml

/-! ## Types -/

/-- The types that a tag can name. Pairs are a list of mappings of one entry each. -/
inductive TagType where
  | scalar (kind : Scalar.Kind)
  | list
  | pairs
  | mapping
  | set
  deriving DecidableEq

/-- The full name of a standard tag. -/
def standardTag (name : String) : String := "tag:yaml.org,2002:" ++ name

/-- The standard tags by their names. -/
def tagTypes : List (String × TagType) :=
  [("str", .scalar .text), ("int", .scalar .int), ("float", .scalar .float),
    ("bool", .scalar .truth), ("null", .scalar .null), ("timestamp", .scalar .time),
    ("binary", .scalar .bytes), ("seq", .list), ("omap", .pairs), ("pairs", .pairs),
    ("map", .mapping), ("set", .set)]

/-- The type that a full tag names. -/
def tagType? (tag : String) : Option TagType :=
  (tagTypes.find? fun (name, _) => standardTag name == tag).map Prod.snd

namespace Node

/-- The tag of a node. -/
def tag? : Node → Option String
  | .scalar tag _ _ => tag
  | .codes tag _ => tag
  | .sequence tag _ => tag
  | .mapping tag _ => tag

/-- Whether a node is a scalar without a type that has the form of a mark, or has the tag of
    the mark. -/
def isMark (mark : Scalar.Kind) (name : String) (node : Node) : Bool :=
  match node with
  | .scalar none true text => Scalar.kindOf text == mark
  | node => node.tag? == some (standardTag name)

/-- Whether a node is the mark of a merged mapping. -/
def isMerge : Node → Bool := isMark .merge "merge"

/-- Whether a node is the mark of a default value. -/
def isDefault : Node → Bool := isMark .default "value"

/-- A node with another tag. -/
def withTag (tag : String) : Node → Node
  | .scalar _ isPlain text => .scalar (some tag) isPlain text
  | .codes _ value => .codes (some tag) value
  | .sequence _ items => .sequence (some tag) items
  | .mapping _ entries => .mapping (some tag) entries

/-- Whether a node is a sequence or a mapping. -/
def isCollection : Node → Bool
  | .sequence _ _ => true
  | .mapping _ _ => true
  | _ => false

/-- The entries of a mapping; nothing else has any. -/
def entries : Node → List (Nat × Nat)
  | .mapping _ entries => entries
  | _ => []

end Node

/-! ## Merged mappings -/

/-- Nodes by their numbers. -/
abbrev Nodes := Array Node

namespace Nodes

/-- A node by its number. -/
def get (nodes : Nodes) (n : Nat) : Node := nodes[n]?.getD Node.blank

/-- Whether a node has a property. -/
def has (nodes : Nodes) (p : Node → Bool) (n : Nat) : Bool := p (nodes.get n)

/-- A mark of a default value that is a key, as a text. -/
def asText (nodes : Nodes) (n : Nat) : Nodes :=
  if nodes.has Node.isDefault n then nodes.modify n (Node.withTag (standardTag "str")) else nodes

/-- The number of entries of all mappings. -/
def entryCount (nodes : Nodes) : Nat := nodes.foldl (fun sum node => sum + node.entries.length) 0

/-- With other entries in a mapping. -/
def setEntries (nodes : Nodes) (n : Nat) (entries : List (Nat × Nat)) : Nodes :=
  nodes.setIfInBounds n (.mapping (nodes.get n).tag? entries)

/-- The first merge mark among entries, as its value, and the entries without it. -/
def takeMerge (nodes : Nodes) : List (Nat × Nat) → Option (Nat × List (Nat × Nat))
  | [] => none
  | (k, v) :: rest =>
    if nodes.has Node.isMerge k then some (v, rest)
    else (nodes.takeMerge rest).map fun (value, others) => (value, (k, v) :: others)

/-- Collects the entries of nodes that have to be mappings, in order, where `flatten` puts in
    those that they merge. -/
def collect (flatten : Nodes → Nat → Except Fault Nodes) (nodes : Nodes) :
    List Nat → Except Fault (Nodes × List (List (Nat × Nat)))
  | [] => .ok (nodes, [])
  | n :: rest =>
    match nodes.get n with
    | .mapping _ _ =>
      (flatten nodes n).bind fun nodes =>
        let first := (nodes.get n).entries
        (collect flatten nodes rest).map fun (nodes, others) => (nodes, first :: others)
    | _ => .error .malformedDocument

/-- Replaces the merge marks in a mapping by the entries that they bring in: those of a
    mapping, or those of all mappings in a list, the last first. They come before the entries
    of the mapping itself. A mark is taken out before its value is looked at, which may be
    the mapping itself, so the number of entries bounds the depth. -/
def flattenInto (found : List (Nat × Nat)) : Nat → Nodes → Nat → Except Fault Nodes
  | 0, _, _ => .error .tooDeep
  | fuel + 1, nodes, n =>
    match nodes.takeMerge (nodes.get n).entries with
    | none =>
      let nodes := (nodes.get n).entries.foldl (fun nodes entry => nodes.asText entry.1) nodes
      .ok (nodes.setEntries n (found ++ (nodes.get n).entries))
    | some (value, kept) =>
      let nodes := nodes.setEntries n kept
      let sources := match nodes.get value with
        | .sequence _ items => items
        | _ => [value]
      (collect (flattenInto [] fuel) nodes sources).bind fun (nodes, more) =>
        flattenInto (found ++ more.reverse.flatten) fuel nodes n

/-- Replaces all merge marks in a mapping. -/
def flatten (nodes : Nodes) (n : Nat) : Except Fault Nodes :=
  flattenInto [] (nodes.entryCount + 1) nodes n

end Nodes

/-! ## Values -/

/-- The value of a node, its parts by their numbers. -/
inductive Part where
  | leaf (datum : Datum)
  | list (items : List Nat)
  | pairs (items : List (Nat × Nat))
  | mapping (entries : List (Datum × Nat))

/-- The values of nodes so far, and all collections in the order in which they were met. -/
structure Assembly where
  nodes : Nodes
  parts : Array (Option Part)
  met : Array Nat

/-- The scalar that a node with the tag of a scalar is: itself, or in a mapping the default
    value. -/
def scalarOf (nodes : Nodes) : Nat → Nat → Except Fault Node
  | 0, _ => .error .tooDeep
  | fuel + 1, n =>
    match nodes.get n with
    | .mapping _ entries =>
      match entries.find? fun entry => nodes.has Node.isDefault entry.1 with
      | some (_, value) => scalarOf nodes fuel value
      | none => .error .malformedDocument
    | .sequence _ _ => .error .malformedDocument
    | node => .ok node

/-- The datum of a node with a tag that names the type of a scalar. The form of a time is
    looked for in the node itself, so that a default value is of the wrong kind for it. -/
def taggedDatum (nodes : Nodes) (kind : Scalar.Kind) (n : Nat) : Except Fault Datum :=
  (scalarOf nodes (nodes.size + 1) n).bind fun node =>
    if kind = .time && nodes.has Node.isCollection n then .error .wrongKind
    else
      match node with
      | .scalar _ _ text => Scalar.read kind text
      | .codes _ value => Scalar.readCodes kind value
      | _ => .error .malformedDocument

namespace Assembly

/-- No values of any node. -/
def start (document : Document) : Assembly where
  nodes := document.nodes
  parts := Array.replicate document.nodes.size none
  met := #[]

/-- The value that a node has at once; none for a collection. -/
def leaf? (a : Assembly) (n : Nat) : Except Fault (Option Datum) :=
  let node := a.nodes.get n
  match node.tag? with
  | some tag =>
    match tagType? tag with
    | none => .error .malformedDocument
    | some (.scalar kind) => (taggedDatum a.nodes kind n).map some
    | some _ => .ok none
  | none =>
    match node with
    | .scalar _ isUntyped text =>
      (Scalar.read (if isUntyped then Scalar.kindOf text else .text) text).map some
    | .codes _ value => .ok (some (.codes value))
    | _ => .ok none

/-- With the value of a node, which may wait for its parts. -/
def add (a : Assembly) (n : Nat) : Except Fault Assembly :=
  if ((a.parts[n]?).getD none).isSome then .ok a
  else
    (a.leaf? n).map fun found =>
      match found with
      | some datum => { a with parts := a.parts.setIfInBounds n (some (.leaf datum)) }
      | none => { a with parts := a.parts.setIfInBounds n (some (.list [])), met := a.met.push n }

/-- The datum of a key, and the node that it comes from if it equals no other key for that:
    a value that is no number, unless it is called by its name. -/
structure Key where
  datum : Datum
  source : Option Nat

/-- Whether two keys are the same. Values that are no numbers are if they come from the same
    place. -/
def Key.same (a b : Key) : Bool :=
  match a.datum, b.datum with
  | .number (.real x), .number (.real y) =>
    if x.isNaN && y.isNaN then a.source == b.source else x == y
  | x, y => x.sameKey y

/-- The key that a node is, if it can be one. -/
def key? (a : Assembly) (n : Nat) : Option Key :=
  match a.parts[n]? with
  | some (some (.leaf datum)) =>
    let isNamed := match scalarOf a.nodes (a.nodes.size + 1) n with
      | .ok (.scalar _ _ text) => Scalar.namesNotANumber text
      | _ => false
    if datum.isKey then some { datum := datum, source := if isNamed then none else some n }
    else none
  | _ => none

/-- Entries with a key set: a key that is there keeps its place and gets the new value. -/
def setKey (entries : List (Key × Nat)) (key : Key) (value : Nat) : List (Key × Nat) :=
  if entries.any fun e => e.1.same key then
    entries.map fun e => if e.1.same key then (e.1, value) else e
  else entries ++ [(key, value)]

/-- The entries of a mapping. -/
def addEntries (a : Assembly) (found : List (Key × Nat)) :
    List (Nat × Nat) → Except Fault (Assembly × List (Datum × Nat))
  | [] => .ok (a, found.map fun (key, value) => (key.datum, value))
  | (k, v) :: rest =>
    (a.add k).bind fun a =>
      match a.key? k with
      | none => .error .malformedDocument
      | some key => (a.add v).bind fun a => addEntries a (setKey found key v) rest

/-- The pairs of a list of mappings with one entry each. -/
def addPairs (a : Assembly) : List Nat → Except Fault (Assembly × List (Nat × Nat))
  | [] => .ok (a, [])
  | n :: rest =>
    match a.nodes.get n with
    | .mapping _ [(k, v)] =>
      ((a.add k).bind fun a => a.add v).bind fun a =>
        (addPairs a rest).map fun (a, others) => (a, (k, v) :: others)
    | _ => .error .malformedDocument

/-- With the parts of a node. -/
def give (a : Assembly) (n : Nat) (part : Part) : Assembly :=
  { a with parts := a.parts.setIfInBounds n (some part) }

/-- Gives a collection its parts. A collection whose tag names another kind is refused. -/
def complete (a : Assembly) (n : Nat) : Except Fault Assembly :=
  match a.nodes.get n with
  | .sequence tag items =>
    match tag.elim (some .list) tagType? with
    | some .list => (items.foldlM add a).map fun a => a.give n (.list items)
    | some .pairs => (a.addPairs items).map fun (a, pairs) => a.give n (.pairs pairs)
    | _ => .error .malformedDocument
  | .mapping tag _ =>
    let entries := (a.nodes.flatten n).bind fun nodes =>
      ({ a with nodes := nodes } : Assembly).addEntries [] (nodes.get n).entries
    match tag.elim (some .mapping) tagType? with
    | some .mapping => entries.map fun (a, found) => a.give n (.mapping found)
    | some .set =>
      entries.map fun (a, found) => a.give n (.leaf (Datum.setOf (found.map Prod.fst)))
    | _ => .error .malformedDocument
  | _ => .error .malformedDocument

/-- Gives all collections their parts, from a place in their order on. -/
def completeAll : Nat → Nat → Assembly → Except Fault Assembly
  | 0, _, a => .ok a
  | fuel + 1, next, a =>
    match a.met[next]? with
    | none => .ok a
    | some n => (a.complete n).bind (completeAll fuel (next + 1))

/-- The values of all nodes of a document. Every node is met once at most. -/
def ofDocument (document : Document) : Except Fault Assembly :=
  ((start document).add document.root).bind (completeAll (document.nodes.size + 1) 0)

/-! ## Data -/

/-- The data of nodes that are in no loop, by their numbers. -/
abbrev Known := Array (Option Datum)

/-- The datum of a node inside some nodes, and which of these it comes back to. A path through
    the nodes repeats none, so their number bounds the depth. -/
def datumIn (a : Assembly) : Nat → List Nat → Nat → StateM Known (Datum × List Nat)
  | 0, _, _ => pure (.null, [])
  | fuel + 1, around, n => do
    if around.contains n then return (.again n, [n])
    match ((← get)[n]?).getD none with
    | some datum => return (datum, [])
    | none =>
      let (datum, back) ← match (a.parts[n]?).getD none with
        | some (.leaf datum) => pure (datum, [])
        | some (.list items) => do
          let found ← items.mapM (datumIn a fuel (n :: around))
          pure (.list (found.map Prod.fst), found.flatMap Prod.snd)
        | some (.pairs items) => do
          let found ← items.mapM fun (k, v) => do
            let (first, there) ← datumIn a fuel (n :: around) k
            let (second, back) ← datumIn a fuel (n :: around) v
            pure (Datum.pair first second, there ++ back)
          pure (.list (found.map Prod.fst), found.flatMap Prod.snd)
        | some (.mapping entries) => do
          let found ← entries.mapM fun (k, v) => do
            let (datum, back) ← datumIn a fuel (n :: around) v
            pure ((k, datum), back)
          pure (.mapping (found.map Prod.fst), found.flatMap Prod.snd)
        | none => pure (.null, [])
      if back.isEmpty then
        modify fun known => known.setIfInBounds n (some datum)
        return (datum, [])
      else return (.loop n datum, back.eraseDups.filter (· != n))

/-- The datum of a node. -/
def datum (a : Assembly) (n : Nat) : Datum :=
  ((datumIn a (a.nodes.size + 1) [] n).run (Array.replicate a.nodes.size none)).1.1

end Assembly

end Yaml

end Roster
