import Roster.Number.Reading
import Roster.Yaml.Quotation

/-!
# Tokens of a Document

A document is cut into marks, scalars and names. Indentation becomes marks of its own:
a block collection opens where an entry stands deeper than the block around it and
closes where a line stands less deep.

A key of a mapping is known as a key only by the `:` behind it. So the place of every
token that could be a key is remembered, and when the `:` comes, the mark for the key -
and, for the first key of a block mapping, the mark that opens it - is put in before that
token. A possible key ends with its line and after 1024 characters. Where the
indentation leaves no choice but a key, a possible key that ends without its `:` is an
error.

A text that is malformed has tokens all the same, up to the place where it is, and the
fault found there. Whoever reads the tokens meets that fault only behind the last of
them, and may find another one before. A token that might still become a key is not
known before what follows it, so the first such token is where the tokens end then.

## Main definitions

* `Directive`: A line that says how to read a document.
* `Token`: A mark, a scalar or a name.
* `Lexer`: The state between two tokens.
* `Lexer.fetch`: The next token.
* `Scan.ofText`: The tokens of a whole text.
-/

namespace Roster

namespace Yaml

/-- A tag: the handle of its namespace, if it uses one, and the rest. -/
structure Tag where
  handle : Option String
  suffix : String
  deriving DecidableEq

/-- A line that says how to read the document behind it. -/
inductive Directive where
  /-- The version of the format. -/
  | version (major minor : Nat)
  /-- A handle for the tags that begin alike. -/
  | tagHandle (handle beginning : String)
  /-- Any other; it means nothing. -/
  | other
  deriving DecidableEq

/-- A mark, a scalar or a name. -/
inductive Token where
  | directive (directive : Directive)
  | documentStart
  | documentEnd
  | sequenceStart
  | mappingStart
  | blockEnd
  | flowSequenceStart
  | flowSequenceEnd
  | flowMappingStart
  | flowMappingEnd
  | entry
  | flowEntry
  | key
  | value
  | alias (name : String)
  | anchor (name : String)
  | tag (tag : Tag)
  | scalar (isPlain : Bool) (text : String)
  /-- A scalar of which some codes stand for no character. -/
  | codes (value : List Nat)
  deriving DecidableEq

/-- A token that could turn out to be a key. -/
structure PossibleKey where
  /-- The number of tokens before it. -/
  number : Nat
  /-- Whether nothing but a key can stand there. -/
  required : Bool
  place : Cursor

/-- The state between two tokens. -/
structure Lexer where
  cursor : Cursor
  /-- How many flow collections are open. -/
  flow : Nat
  /-- The indentation of the innermost block, and those around it. -/
  indent : Int
  outer : List Int
  /-- Whether a key may start here. -/
  keyAllowed : Bool
  /-- The possible key of each flow depth that has one. -/
  keys : List (Nat × PossibleKey)
  tokens : Array Token

namespace Lexer

/-- The state before the first token. -/
def start (text : List Char) : Lexer where
  cursor := Cursor.start text
  flow := 0
  indent := -1
  outer := []
  keyAllowed := true
  keys := []
  tokens := #[]

/-- Adds a token. -/
def emit (l : Lexer) (t : Token) : Lexer := { l with tokens := l.tokens.push t }

/-- Adds a token that was read by its first characters. -/
def take (l : Lexer) (count : Nat) (t : Token) : Lexer :=
  { l with cursor := l.cursor.skip count, tokens := l.tokens.push t }

/-- Column of the cursor. -/
def column (l : Lexer) : Int := l.cursor.column

/-- Whether a possible key can no longer become one. -/
def isStale (l : Lexer) (k : PossibleKey) : Bool :=
  k.place.line != l.cursor.line || decide (1024 < l.cursor.index - k.place.index)

/-- Forgets the possible keys that have ended; none if one of them was required. -/
def dropStale (l : Lexer) : Option Lexer :=
  if l.keys.any fun (_, k) => l.isStale k && k.required then none
  else some { l with keys := l.keys.filter fun (_, k) => !l.isStale k }

/-- Forgets the possible key of the present depth; none if it was required. -/
def dropKey (l : Lexer) : Option Lexer :=
  if l.keys.any fun (depth, k) => depth == l.flow && k.required then none
  else some { l with keys := l.keys.filter fun (depth, _) => depth != l.flow }

/-- Remembers the next token as a possible key, if a key may start here. -/
def saveKey (l : Lexer) : Option Lexer :=
  if l.keyAllowed then
    l.dropKey.map fun l =>
      { l with
        keys := (l.flow, {
          number := l.tokens.size
          required := l.flow == 0 && l.indent == l.column
          place := l.cursor }) :: l.keys }
  else some l

/-- Closes the blocks that are deeper than a column, each with a mark; `outer` lists the
    indentations around the innermost. -/
def unwindTo (column : Int) : List Int → Int → Array Token → Array Token × Int × List Int
  | [], indent, tokens => (tokens, indent, [])
  | around :: outer, indent, tokens =>
    if column < indent then unwindTo column outer around (tokens.push .blockEnd)
    else (tokens, indent, around :: outer)

/-- Closes the blocks that are deeper than a column. Nothing closes inside a flow
    collection. -/
def unwind (l : Lexer) (column : Int) : Lexer :=
  if l.flow != 0 then l
  else
    let (tokens, indent, outer) := unwindTo column l.outer l.indent l.tokens
    { l with tokens := tokens, indent := indent, outer := outer }

/-- Opens a block at a column if it is deeper than the innermost; says whether it did. -/
def deepen (l : Lexer) (column : Int) : Bool × Lexer :=
  if l.indent < column then (true, { l with outer := l.indent :: l.outer, indent := column })
  else (false, l)

/-- Opens a block at the cursor with a mark, if it is deeper than the innermost. -/
def openBlock (l : Lexer) (mark : Token) : Lexer :=
  match l.deepen l.column with
  | (true, l) => l.emit mark
  | (false, l) => l

/-- Blanks, comments and line breaks before a token; outside flow collections a key may
    start on a new line. -/
def skipGap : Nat → Lexer → Lexer
  | 0, l => l
  | fuel + 1, l =>
    let c := l.cursor.skipWhile (· == ' ')
    let c := if c.peek == some '#' then c.skipWhile fun x => !isBreak x else c
    match c.takeBreak with
    | none => { l with cursor := c }
    | some (_, next) =>
      skipGap fuel { l with cursor := next, keyAllowed := l.keyAllowed || l.flow == 0 }

/-- A byte order mark before everything else. -/
def skipOrderMark (l : Lexer) : Lexer :=
  if l.cursor.index == 0 && l.cursor.peek == some (Char.ofNat 0xFEFF) then
    { l with cursor := l.cursor.advance }
  else l

/-- Ends every block and every possible key, before a document marker or the end. -/
def close (l : Lexer) : Option Lexer :=
  (l.unwind (-1)).dropKey.map fun l => { l with keyAllowed := false }

/-- A document marker. -/
def fetchMarker (l : Lexer) (t : Token) : Option Lexer := l.close.map fun l => l.take 3 t

/-- The mark that opens a flow collection, which could itself be a key. -/
def fetchFlowStart (l : Lexer) (t : Token) : Option Lexer :=
  l.saveKey.map fun l => { l.take 1 t with flow := l.flow + 1, keyAllowed := true }

/-- The mark that closes a flow collection. -/
def fetchFlowEnd (l : Lexer) (t : Token) : Option Lexer :=
  if l.flow = 0 then none
  else l.dropKey.map fun l => { l.take 1 t with flow := l.flow - 1, keyAllowed := false }

/-- The mark between two entries of a flow collection. -/
def fetchFlowEntry (l : Lexer) : Option Lexer :=
  l.dropKey.map fun l => { l.take 1 .flowEntry with keyAllowed := true }

/-- The mark of an entry of a block sequence, which may open the sequence. -/
def fetchEntry (l : Lexer) : Option Lexer :=
  if l.flow = 0 ∧ !l.keyAllowed then none
  else
    let l := if l.flow = 0 then l.openBlock .sequenceStart else l
    l.dropKey.map fun l => { l.take 1 .entry with keyAllowed := true }

/-- The mark of an explicit key, which may open a block mapping. -/
def fetchKey (l : Lexer) : Option Lexer :=
  if l.flow = 0 ∧ !l.keyAllowed then none
  else
    let l := if l.flow = 0 then l.openBlock .mappingStart else l
    l.dropKey.map fun l => { l.take 1 .key with keyAllowed := l.flow == 0 }

/-- The mark of a value. With a possible key before it, the marks of the key are put in
    before that token. -/
def fetchValue (l : Lexer) : Option Lexer :=
  match l.keys.find? fun (depth, _) => depth == l.flow with
  | some (_, k) =>
    let l := { l with
      keys := l.keys.filter fun (depth, _) => depth != l.flow
      tokens := l.tokens.insertIdxIfInBounds k.number .key
      keyAllowed := false }
    let l := if l.flow = 0 then
        match l.deepen k.place.column with
        | (true, l) => { l with tokens := l.tokens.insertIdxIfInBounds k.number .mappingStart }
        | (false, l) => l
      else l
    some (l.take 1 .value)
  | none =>
    if l.flow = 0 ∧ !l.keyAllowed then none
    else
      let l := if l.flow = 0 then l.openBlock .mappingStart else l
      l.dropKey.map fun l => { l.take 1 .value with keyAllowed := l.flow == 0 }

/-- Whether a character can stand in the name of an anchor or a tag's handle. -/
def isNameChar (c : Char) : Bool := c.isAlphanum || c == '-' || c == '_'

/-- Whether the name of an anchor may end before a place. -/
def endsName : Option Char → Bool
  | none => true
  | some c => endsWord (some c) || "?:,]\x7d%@\x60".toList.contains c

/-- A name behind its mark. -/
def fetchName (l : Lexer) (make : String → Token) : Option Lexer :=
  l.saveKey.bind fun l =>
    let (name, c) := l.cursor.advance.spanWhile isNameChar
    if name.isEmpty || !endsName c.peek then none
    else some ({ l with cursor := c, keyAllowed := false }.emit (make (String.ofList name)))

/-- Whether a character can stand in a tag for itself. -/
def isTagChar (c : Char) : Bool :=
  c.isAlphanum || "-;/?:@&=+$,_.!~*'()[]".toList.contains c

/-- Bytes at the cursor, each written in two digits behind a percent sign. -/
def tagBytes : Nat → Cursor → Option (List UInt8 × Cursor)
  | 0, _ => none
  | fuel + 1, c =>
    if c.peek != some '%' then some ([], c)
    else
      (Quotation.hexValue? ((c.rest.drop 1).take 2) 2).bind fun code =>
        (tagBytes fuel (c.skip 3)).map fun (bytes, last) => (UInt8.ofNat code :: bytes, last)

/-- The characters of a tag. Some may be written by their bytes, which have to be whole
    characters where they end. -/
def tagChars : Nat → Cursor → Option Quotation.Read
  | 0, _ => none
  | fuel + 1, c =>
    match c.peek with
    | none => some ([], c)
    | some x =>
      if x == '%' then
        (tagBytes (fuel + 1) c).bind fun (bytes, next) =>
          (String.fromUTF8? (ByteArray.mk bytes.toArray)).bind fun text =>
            (tagChars fuel next).map fun (xs, last) => (text.toList ++ xs, last)
      else if isTagChar x then
        (tagChars fuel c.advance).map fun (xs, last) => (x :: xs, last)
      else some ([], c)

/-- The text of a tag, which may not be empty. -/
def tagText (c : Cursor) : Option (String × Cursor) :=
  (tagChars (c.rest.length + 1) c).bind fun (text, last) =>
    if text.isEmpty then none else some (String.ofList text, last)

/-- The handle of a tag at the cursor: `!`, or a name between two of them. -/
def tagHandle (c : Cursor) : Option (String × Cursor) :=
  let word := c.rest.takeWhile fun x => !endsLine (some x) && x != ' '
  if (word.drop 1).contains '!' then
    let name := (word.drop 1).takeWhile isNameChar
    if c.peekAt (name.length + 1) == some '!' then
      some (String.ofList ('!' :: name ++ ['!']), c.skip (name.length + 2))
    else none
  else some ("!", c.advance)

/-- A tag. -/
def readTag (c : Cursor) : Option (Tag × Cursor) :=
  let found : Option (Tag × Cursor) :=
    match c.peekAt 1 with
    | some '<' =>
      (tagText (c.skip 2)).bind fun (suffix, c) =>
        if c.peek == some '>' then some ({ handle := none, suffix := suffix }, c.advance) else none
    | x =>
      if endsWord x then some ({ handle := none, suffix := "!" }, c.advance)
      else
        (tagHandle c).bind fun (handle, c) =>
          (tagText c).map fun (suffix, c) => ({ handle := some handle, suffix := suffix }, c)
  found.filter fun (_, c) => c.peek == some ' ' || endsLine c.peek

/-- A tag behind its mark. -/
def fetchTag (l : Lexer) : Option Lexer :=
  l.saveKey.bind fun l =>
    (readTag l.cursor).map fun (tag, c) =>
      { l with cursor := c, keyAllowed := false }.emit (.tag tag)

/-- A whole number at the cursor, which must not be too long. -/
def wholeNumber (c : Cursor) : Except Fault (Nat × Cursor) :=
  let (digits, c) := c.spanWhile Char.isDigit
  if digits.isEmpty then .error .malformedDocument
  else if Whole.maxDigits < digits.length then .error (.overlongInteger (some digits.length))
  else .ok (Decimal.ofDigits digits, c)

/-- The version in a directive: two numbers with a point between them. -/
def versionDirective (c : Cursor) : Except Fault (Directive × Cursor) :=
  (wholeNumber (c.skipWhile (· == ' '))).bind fun (major, c) =>
    if c.peek == some '.' then
      (wholeNumber c.advance).bind fun (minor, c) =>
        if c.peek == some ' ' || endsLine c.peek then .ok (.version major minor, c)
        else .error .malformedDocument
    else .error .malformedDocument

/-- The handle in a directive and what it stands for. -/
def handleDirective (c : Cursor) : Option (Directive × Cursor) :=
  let c := c.skipWhile (· == ' ')
  let found : Option (String × Cursor) :=
    if c.peek != some '!' then none
    else if c.peekAt 1 == some ' ' then some ("!", c.advance)
    else
      let (name, c) := c.advance.spanWhile isNameChar
      if c.peek == some '!' then some (String.ofList ('!' :: name ++ ['!']), c.advance) else none
  found.bind fun (handle, c) =>
    if c.peek != some ' ' then none
    else
      (tagText (c.skipWhile (· == ' '))).bind fun (beginning, c) =>
        if c.peek == some ' ' || endsLine c.peek then some (.tagHandle handle beginning, c)
        else none

/-- What was found, or else the fault of a malformed document. -/
def orMalformed {β : Type} (found : Option β) : Except Fault β :=
  match found with
  | some x => .ok x
  | none => .error .malformedDocument

/-- A directive behind its mark. -/
def readDirective (c : Cursor) : Except Fault (Directive × Cursor) :=
  let (name, c) := c.spanWhile isNameChar
  if name.isEmpty || !(c.peek == some ' ' || endsLine c.peek) then .error .malformedDocument
  else if name == "YAML".toList then versionDirective c
  else if name == "TAG".toList then orMalformed (handleDirective c)
  else .ok (.other, c.skipWhile fun x => !isBreak x)

/-- A directive with the rest of its line. -/
def fetchDirective (l : Lexer) : Except Fault Lexer :=
  (orMalformed l.close).bind fun l =>
    (readDirective l.cursor.advance).bind fun (directive, c) =>
      (orMalformed (Quotation.headerEnd c)).map fun c =>
        { l with cursor := c }.emit (.directive directive)

/-- A block scalar. -/
def fetchBlock (l : Lexer) (folded : Bool) : Option Lexer :=
  l.dropKey.bind fun l =>
    (Quotation.block folded l.indent l.cursor.advance).map fun (text, c) =>
      { l with cursor := c, keyAllowed := true }.emit (.scalar false (String.ofList text))

/-- A single-quoted scalar. -/
def fetchSingle (l : Lexer) : Option Lexer :=
  l.saveKey.bind fun l =>
    (Quotation.singleQuoted l.cursor.advance).map fun (text, c) =>
      { l with cursor := c, keyAllowed := false }.emit (.scalar false (String.ofList text))

/-- The scalar of some codes. -/
def codesToken (codes : List Nat) : Token :=
  match codes.mapM Text.charOfCode? with
  | some cs => .scalar false (String.ofList cs)
  | none => .codes codes

/-- A double-quoted scalar. -/
def fetchDouble (l : Lexer) : Except Fault Lexer :=
  match l.saveKey with
  | none => .error .malformedDocument
  | some l =>
    (Quotation.doubleQuoted l.cursor.advance).map fun (codes, c) =>
      { l with cursor := c, keyAllowed := false }.emit (codesToken codes)

/-- A plain scalar. -/
def fetchPlain (l : Lexer) : Option Lexer :=
  l.saveKey.map fun l =>
    let found := Quotation.plain (l.flow != 0) (l.indent + 1) l.cursor
    { l with cursor := found.cursor, keyAllowed := found.newLine }.emit
      (.scalar true (String.ofList found.text))

/-- Characters with which a plain scalar cannot start unless a word follows at once. -/
def indicators : List Char := "-?:,[]\x7b\x7d#&*!|>'\"%@\x60".toList

/-- Whether a plain scalar starts at the cursor. -/
def startsPlain (l : Lexer) (c : Char) : Bool :=
  (!endsWord (some c) && !indicators.contains c) ||
    (!endsWord (l.cursor.peekAt 1) && (c == '-' || (l.flow == 0 && (c == '?' || c == ':'))))

/-- The mark, name or scalar that starts with a character at the cursor, unless it is a
    directive or a double-quoted scalar. -/
def fetchOther (l : Lexer) (c : Char) : Option Lexer :=
  let spaced := endsWord (l.cursor.peekAt 1)
  let bare := l.flow == 0
  if l.cursor.column == 0 && l.cursor.startsWith3 '-' then l.fetchMarker .documentStart
  else if l.cursor.column == 0 && l.cursor.startsWith3 '.' then l.fetchMarker .documentEnd
  else if c == '[' then l.fetchFlowStart .flowSequenceStart
  else if c == '\x7b' then l.fetchFlowStart .flowMappingStart
  else if c == ']' then l.fetchFlowEnd .flowSequenceEnd
  else if c == '\x7d' then l.fetchFlowEnd .flowMappingEnd
  else if c == ',' then l.fetchFlowEntry
  else if c == '-' && spaced then l.fetchEntry
  else if c == '?' && (!bare || spaced) then l.fetchKey
  else if c == ':' && (!bare || spaced) then l.fetchValue
  else if c == '*' then l.fetchName .alias
  else if c == '&' then l.fetchName .anchor
  else if c == '!' then l.fetchTag
  else if c == '|' && bare then l.fetchBlock false
  else if c == '>' && bare then l.fetchBlock true
  else if c == '\'' then l.fetchSingle
  else if l.startsPlain c then l.fetchPlain
  else none

/-- The token that starts with a character at the cursor. -/
def fetchAt (l : Lexer) (c : Char) : Except Fault Lexer :=
  if c == '%' && l.cursor.column == 0 then l.fetchDirective
  else if c == '"' then l.fetchDouble
  else orMalformed (l.fetchOther c)

/-- One more token, and whether the text ended instead. -/
def fetch (l : Lexer) : Except Fault (Bool × Lexer) :=
  let l := l.skipOrderMark
  match (skipGap (l.cursor.rest.length + 1) l).dropStale with
  | none => .error .malformedDocument
  | some l =>
    let l := l.unwind l.column
    match l.cursor.peek with
    | some c => (l.fetchAt c).map fun l => (false, l)
    | none =>
      match l.close with
      | some l => .ok (true, l)
      | none => .error .malformedDocument

/-- The tokens that are known without what follows: those before the first possible key. -/
def settled (l : Lexer) : Array Token :=
  let numbers := (l.keys.filter fun (_, k) => !l.isStale k).map fun (_, k) => k.number
  l.tokens.take (numbers.foldl min l.tokens.size)

/-- Tokens up to the end of the text or the first fault, at most `fuel` of them. -/
def run : Nat → Lexer → Array Token × Option Fault
  | 0, l => (l.tokens, some .malformedDocument)
  | fuel + 1, l =>
    match l.fetch with
    | .error fault => (l.settled, some fault)
    | .ok (true, l) => (l.tokens, none)
    | .ok (false, l) => run fuel l

end Lexer

/-- Whether a character may stand in a document at all. -/
def isAdmissible (c : Char) : Bool :=
  let n := c.toNat
  n == 9 || n == 10 || n == 13 || (0x20 ≤ n && n ≤ 0x7E) || n == 0x85 ||
    (0xA0 ≤ n && n ≤ 0xD7FF) || (0xE000 ≤ n && n ≤ 0xFFFD) || 0x10000 ≤ n

/-- The tokens of a text, and the fault that ends them before the text does. -/
structure Scan where
  tokens : List Token
  fault : Option Fault

/-- The tokens of a whole text. Every token takes a character, so there are at most as many
    fetches as characters, and one for the end. -/
def Scan.ofText (text : String) : Scan :=
  let cs := text.toList
  if cs.all isAdmissible then
    let (tokens, fault) := Lexer.run (cs.length + 1) (Lexer.start cs)
    { tokens := tokens.toList, fault := fault }
  else { tokens := [], fault := some .malformedDocument }

end Yaml

end Roster
