import Roster.Yaml.Token

/-!
# Nodes of a Document

The tokens of a document form nodes: scalars, sequences and mappings, each with the tag
it was given. An anchor names a node; an alias is the node named before it, which may be
a node around it that is not finished yet. So the nodes of a document are numbered, a
collection holds the numbers of its parts, and a node has its number before it is read.
A place that holds no token of its own - a key without a value, an entry without
content - holds an empty plain scalar.

The readers follow the grammar and return the rest of the tokens. Where the tokens do not
fit, the document is malformed; where they have run out, it has the fault that ended
them. Every nested call has read a token first, so the number of tokens bounds the depth.
Collections can be nested only so deep, which is another fault.

## Main definitions

* `Node`: A scalar, a sequence or a mapping with its tag.
* `Document`: All nodes of a document.
* `Document.ofScan`: The single document of some tokens, if there is one.
-/

namespace Roster

namespace Yaml

/-- A node of a document; its parts are given by their numbers. -/
inductive Node where
  | scalar (tag : Option String) (isPlain : Bool) (text : String)
  /-- A scalar of which some codes stand for no character. -/
  | codes (tag : Option String) (value : List Nat)
  | sequence (tag : Option String) (items : List Nat)
  | mapping (tag : Option String) (entries : List (Nat × Nat))

/-- All nodes of a document by their numbers, and the number of the outermost. -/
structure Document where
  nodes : Array Node
  root : Nat

namespace Node

/-- The scalar that stands where nothing was written. -/
def blank : Node := .scalar none true ""

/-- What is left to read, the fault behind it, the number of collections around, the nodes so
    far, the numbers of those that were named, and what the handles of tags stand for. -/
structure Rest where
  tokens : List Token
  ending : Option Fault
  depth : Nat
  nodes : Array Node
  named : List (String × Nat)
  handles : List (String × String)

/-- Something that was read, and what is left. -/
abbrev Read (β : Type) := Except Fault (β × Rest)

namespace Rest

/-- Without its first token. -/
def drop (r : Rest) : Rest := { r with tokens := r.tokens.tail }

/-- Whether the next token is one of some. -/
def isAt (r : Rest) (marks : List Token) : Bool :=
  match r.tokens with
  | t :: _ => marks.contains t
  | [] => false

/-- What is wrong if the next token does not fit. -/
def fault (r : Rest) : Fault := if r.tokens.isEmpty then r.ending.getD .malformedDocument
  else .malformedDocument

/-- Refuses to go on where the tokens ended with a fault. -/
def mustGoOn (r : Rest) : Except Fault Unit :=
  match r.tokens, r.ending with
  | [], some fault => .error fault
  | _, _ => .ok ()

/-- The number of a new node, with its name if it has one. -/
def reserve (r : Rest) (name : Option String) : Nat × Rest :=
  let number := r.nodes.size
  let named := match name with
    | some name => (name, number) :: r.named
    | none => r.named
  (number, { r with nodes := r.nodes.push blank, named := named })

/-- With a node under its number. -/
def fill (r : Rest) (number : Nat) (node : Node) : Rest :=
  { r with nodes := r.nodes.setIfInBounds number node }

/-- With a blank node. -/
def addBlank (r : Rest) : Nat × Rest := r.reserve none

/-- Reads something inside one more collection. -/
def within {β : Type} (r : Rest) (read : Rest → Read β) : Read β :=
  (read { r with depth := r.depth + 1 }).map fun (found, last) =>
    (found, { last with depth := r.depth })

end Rest

/-- The handles that a document can always use, unless it says otherwise. -/
def standardHandles : List (String × String) := [("!", "!"), ("!!", "tag:yaml.org,2002:")]

/-- A tag in full. -/
def Rest.fullTag? (r : Rest) (tag : Tag) : Option String :=
  match tag.handle with
  | none => some tag.suffix
  | some handle => (r.handles.lookup handle).map (· ++ tag.suffix)

/-- The anchor and the tag before a node, in either order. -/
structure Properties where
  anchor : Option String
  tag : Option String
  rest : Rest

/-- Properties with a tag, if its handle stands for something. -/
def Rest.tagged (r : Rest) (anchor : Option String) (tag : Tag) (rest : List Token) :
    Except Fault Properties :=
  match r.fullTag? tag with
  | some tag => .ok ⟨anchor, some tag, { r with tokens := rest }⟩
  | none => .error .malformedDocument

/-- Reads the properties before a node. -/
def properties (r : Rest) : Except Fault Properties :=
  match r.tokens with
  | .anchor name :: .tag tag :: rest => r.tagged (some name) tag rest
  | .anchor name :: rest => .ok ⟨some name, none, { r with tokens := rest }⟩
  | .tag tag :: .anchor name :: rest => r.tagged (some name) tag rest
  | [.tag tag] => (r.drop.mustGoOn).bind fun _ => r.tagged none tag []
  | .tag tag :: rest => r.tagged none tag rest
  | _ => .ok ⟨none, none, r⟩

/-- The properties before a node that may be written behind them. An anchor names one node
    only. -/
def freshProperties (r : Rest) : Except Fault Properties :=
  (properties r).bind fun p =>
    p.rest.mustGoOn.bind fun _ =>
      if p.anchor.any fun name => (r.named.lookup name).isSome then .error .malformedDocument
      else .ok p

/-- Whether a scalar's type is found from its text: it is plain without a tag, or its tag
    says nothing. -/
def isUntyped (tag : Option String) (isPlain : Bool) : Bool :=
  (isPlain && tag.isNone) || tag == some "!"

/-- The most collections that can lie around a node. -/
def maxDepth : Nat := 490

/-- An empty scalar, which can stand only behind an anchor or a tag. -/
def emptyNode (p : Properties) : Read Nat :=
  if p.anchor.isSome || p.tag.isSome then
    let node : Node := .scalar (p.tag.filter (· != "!")) (isUntyped p.tag true) ""
    let (number, rest) := p.rest.reserve p.anchor
    .ok (number, rest.fill number node)
  else .error p.rest.fault

/-- A collection with properties, from a reader of its parts. -/
def collection {β : Type} (p : Properties) (make : Option String → β → Node)
    (parts : Rest → Read β) : Read Nat :=
  let (number, rest) := p.rest.reserve p.anchor
  (rest.within parts).map fun (found, rest) =>
    (number, rest.fill number (make (p.tag.filter (· != "!")) found))

mutual

/-- A node inside some collections. In a block, collections may be blocks; where `indentless`
    is set, a sequence may stand as deep as its key. -/
def node (inBlock indentless : Bool) : Nat → Rest → Read Nat
  | 0, _ => .error .malformedDocument
  | fuel + 1, r =>
    if maxDepth < r.depth then .error .tooDeep
    else
      match r.tokens with
      | .alias name :: _ =>
        match r.named.lookup name with
        | some number => .ok (number, r.drop)
        | none => .error .malformedDocument
      | _ =>
        match freshProperties r with
        | .error fault => .error fault
        | .ok p =>
          match p.rest.tokens with
          | .entry :: _ =>
            if indentless then collection p .sequence fun r => indentlessItems fuel r
            else emptyNode p
          | .scalar isPlain text :: _ =>
            let tag := p.tag.filter (· != "!")
            let (number, rest) := p.rest.drop.reserve p.anchor
            .ok (number, rest.fill number (.scalar tag (isUntyped p.tag isPlain) text))
          | .codes value :: _ =>
            let (number, rest) := p.rest.drop.reserve p.anchor
            .ok (number, rest.fill number (.codes (p.tag.filter (· != "!")) value))
          | .flowSequenceStart :: _ =>
            collection p .sequence fun r => flowItems true fuel r.drop
          | .flowMappingStart :: _ =>
            collection p .mapping fun r => flowEntries true fuel r.drop
          | .sequenceStart :: _ =>
            if inBlock then collection p .sequence fun r => blockItems fuel r.drop
            else emptyNode p
          | .mappingStart :: _ =>
            if inBlock then collection p .mapping fun r => blockEntries fuel r.drop
            else emptyNode p
          | _ => emptyNode p

/-- A node, or an empty scalar if one of some marks comes next. -/
def nodeUnless (marks : List Token) (inBlock indentless : Bool) :
    Nat → Rest → Read Nat
  | 0, _ => .error .malformedDocument
  | fuel + 1, r =>
    if r.isAt marks then .ok r.addBlank else node inBlock indentless fuel r

/-- The items of a block sequence up to the end of the block. -/
def blockItems : Nat → Rest → Read (List Nat)
  | 0, _ => .error .malformedDocument
  | fuel + 1, r =>
    match r.tokens with
    | .entry :: _ =>
      (nodeUnless [.entry, .blockEnd] true false fuel r.drop).bind fun (item, r) =>
        (blockItems fuel r).map fun (items, r) => (item :: items, r)
    | .blockEnd :: _ => .ok ([], r.drop)
    | _ => .error r.fault

/-- The items of a sequence that stands as deep as its key. -/
def indentlessItems : Nat → Rest → Read (List Nat)
  | 0, _ => .error .malformedDocument
  | fuel + 1, r =>
    match r.tokens with
    | .entry :: _ =>
      (nodeUnless [.entry, .key, .value, .blockEnd] true false fuel r.drop).bind
        fun (item, r) =>
          (indentlessItems fuel r).map fun (items, r) => (item :: items, r)
    | _ => .ok ([], r)

/-- The value behind a key of a block mapping. -/
def blockValue : Nat → Rest → Read Nat
  | 0, _ => .error .malformedDocument
  | fuel + 1, r =>
    match r.tokens with
    | .value :: _ => nodeUnless [.key, .value, .blockEnd] true true fuel r.drop
    | _ => .ok r.addBlank

/-- The entries of a block mapping up to the end of the block. -/
def blockEntries : Nat → Rest → Read (List (Nat × Nat))
  | 0, _ => .error .malformedDocument
  | fuel + 1, r =>
    match r.tokens with
    | .key :: _ =>
      (nodeUnless [.key, .value, .blockEnd] true true fuel r.drop).bind fun (key, r) =>
        (blockValue fuel r).bind fun (value, r) =>
          (blockEntries fuel r).map fun (entries, r) => ((key, value) :: entries, r)
    | .blockEnd :: _ => .ok ([], r.drop)
    | _ => .error r.fault

/-- The value behind a key of a flow collection that ends with `closing`. -/
def flowValue (closing : Token) : Nat → Rest → Read Nat
  | 0, _ => .error .malformedDocument
  | fuel + 1, r =>
    match r.tokens with
    | .value :: _ => nodeUnless [.flowEntry, closing] false false fuel r.drop
    | _ => .ok r.addBlank

/-- A mapping of one entry, without marks of its own, in a flow sequence. -/
def flowPair : Nat → Rest → Read Nat
  | 0, _ => .error .malformedDocument
  | fuel + 1, r =>
    collection ⟨none, none, r⟩ (fun tag entry => .mapping tag [entry]) fun r =>
      (nodeUnless [.value, .flowEntry, .flowSequenceEnd] false false fuel r.drop).bind
        fun (key, r) =>
          (flowValue .flowSequenceEnd fuel r).map fun (value, r) => ((key, value), r)

/-- The items of a flow sequence up to its end. An item with a key is a mapping of one
    entry. -/
def flowItems (isFirst : Bool) : Nat → Rest → Read (List Nat)
  | 0, _ => .error .malformedDocument
  | fuel + 1, r =>
    if r.isAt [.flowSequenceEnd] then .ok ([], r.drop)
    else
      let next : Except Fault Rest :=
        if isFirst then .ok r else if r.isAt [.flowEntry] then .ok r.drop else .error r.fault
      next.bind fun r =>
        match r.tokens with
        | .flowSequenceEnd :: _ => .ok ([], r.drop)
        | .key :: _ =>
          (flowPair fuel r).bind fun (item, r) =>
            (flowItems false fuel r).map fun (items, r) => (item :: items, r)
        | _ =>
          (node false false fuel r).bind fun (item, r) =>
            (flowItems false fuel r).map fun (items, r) => (item :: items, r)

/-- The entries of a flow mapping up to its end. A key may stand alone. -/
def flowEntries (isFirst : Bool) : Nat → Rest → Read (List (Nat × Nat))
  | 0, _ => .error .malformedDocument
  | fuel + 1, r =>
    if r.isAt [.flowMappingEnd] then .ok ([], r.drop)
    else
      let next : Except Fault Rest :=
        if isFirst then .ok r else if r.isAt [.flowEntry] then .ok r.drop else .error r.fault
      next.bind fun r =>
        match r.tokens with
        | .flowMappingEnd :: _ => .ok ([], r.drop)
        | .key :: _ =>
          (nodeUnless [.value, .flowEntry, .flowMappingEnd] false false fuel r.drop).bind
            fun (key, r) =>
              (flowValue .flowMappingEnd fuel r).bind fun (value, r) =>
                (flowEntries false fuel r).map fun (entries, r) => ((key, value) :: entries, r)
        | _ =>
          (node false false fuel r).bind fun (key, r) =>
            let (value, r) := r.addBlank
            (flowEntries false fuel r).map fun (entries, r) => ((key, value) :: entries, r)

end

/-- What the directives before a document say. -/
structure Directives where
  hasVersion : Bool
  handles : List (String × String)

/-- Takes directives up to the document marker that they need. A version may stand once and
    has to be of the first kind; a handle may be set once. Where the tokens end first, the
    fault is the one that ended them. -/
def takeDirectives (ending : Fault) (d : Directives) :
    List Token → Except Fault (Directives × List Token)
  | .directive (.version major _) :: rest =>
    if d.hasVersion || major != 1 then .error .malformedDocument
    else takeDirectives ending { d with hasVersion := true } rest
  | .directive (.tagHandle handle beginning) :: rest =>
    if (d.handles.lookup handle).isSome then .error .malformedDocument
    else takeDirectives ending { d with handles := (handle, beginning) :: d.handles } rest
  | .directive .other :: rest => takeDirectives ending d rest
  | .documentStart :: rest => .ok (d, rest)
  | [] => .error ending
  | _ => .error .malformedDocument

/-- No directives. -/
def Directives.none : Directives := { hasVersion := false, handles := [] }

/-- Checks that nothing but document ends is left. -/
def checkOver (r : Rest) : Except Fault Unit :=
  match r.tokens.dropWhile fun t => t == .documentEnd, r.ending with
  | [], Option.none => .ok ()
  | tokens, ending =>
    (takeDirectives (ending.getD .malformedDocument) .none tokens).bind fun _ =>
      .error .malformedDocument

/-- Whether a document behind its marker has no content. -/
def isBare : List Token → Bool
  | [] => true
  | .documentStart :: _ => true
  | .documentEnd :: _ => true
  | .directive _ :: _ => true
  | _ => false

/-- The nodes of a document with some handles. -/
def content (r : Rest) : Read Nat := node true false (4 * r.tokens.length + 4) r

/-- The nodes of a document behind its directives and its marker. -/
def markedContent (r : Rest) : Read Nat :=
  match takeDirectives (r.ending.getD .malformedDocument) .none r.tokens with
  | .error fault => .error fault
  | .ok (d, tokens) =>
    let r := { r with tokens := tokens, handles := d.handles ++ standardHandles }
    if isBare tokens then .ok r.addBlank else content r

end Node

/-- The single document of some tokens; none if there is no document at all. -/
def Document.ofScan (scan : Scan) : Except Fault (Option Document) :=
  let r : Node.Rest := {
    tokens := scan.tokens
    ending := scan.fault
    depth := 0
    nodes := #[]
    named := []
    handles := Node.standardHandles }
  let found : Node.Read Nat :=
    match scan.tokens with
    | .directive _ :: _ => Node.markedContent r
    | .documentStart :: _ => Node.markedContent r
    | _ => Node.content r
  if scan.tokens.isEmpty && scan.fault.isNone then .ok none
  else
    match found with
    | .error fault => .error fault
    | .ok (root, rest) =>
      (Node.checkOver rest).map fun _ => some { nodes := rest.nodes, root := root }

end Yaml

end Roster
