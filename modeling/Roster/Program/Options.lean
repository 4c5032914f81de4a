import Roster.Number.Reading
import Roster.Text.Quoted

/-!
# Options of a Command Line

A command line consists of options, each with its values behind it. An option may be
shortened to any beginning of its name that no other option shares, and its value may
follow an `=`, or directly a name of one letter. What starts with a dash is an option,
unless it is a lone dash, reads as a negative number, or holds a blank; behind `--`
nothing is an option any more.

All words are told apart before any is acted on, so an ambiguous word is refused even
behind a request for help. Then the options are taken in order, and the first one that
is wrong, or the first request for help, settles the outcome. Words that belong to no
option are refused last and together.

## Main definitions

* `OptionSpec`: One option of a program.
* `Word`: What a word of a command line is.
* `classify`: Telling a word apart.
* `Chosen`: An option with its values.
* `parseOptions`: The options of a command line.
-/

namespace Roster

namespace Program

/-- How many values an option takes. -/
inductive Arity where
  | nothing
  | one
  | several
  deriving DecidableEq

/-- One option of a program. -/
structure OptionSpec where
  /-- The ways to write it, the last of which names it. -/
  names : List String
  arity : Arity
  /-- What is wrong with a value, if anything. -/
  complaint : String → Option String

namespace OptionSpec

/-- The name by which an option is known. -/
def name (s : OptionSpec) : String := s.names.getLastD ""

/-- All ways to write an option, for messages. -/
def allNames (s : OptionSpec) : String := "/".intercalate s.names

/-- The option that asks for help. -/
def help : OptionSpec where
  names := ["-h", "--help"]
  arity := .nothing
  complaint _ := none

/-- An option without values. -/
def flag (name : String) : OptionSpec where
  names := [name]
  arity := .nothing
  complaint _ := none

/-- An option with a value of any kind. -/
def text (name : String) : OptionSpec where
  names := [name]
  arity := .one
  complaint _ := none

/-- An option with a whole number as its value. -/
def whole (name : String) : OptionSpec where
  names := [name]
  arity := .one
  complaint v :=
    if (Whole.read? v).isSome then none else some ("invalid int value: " ++ Text.quote v)

/-- An option with one of some values, or several of them. -/
def choice (name : String) (arity : Arity) (choices : List String) : OptionSpec where
  names := [name]
  arity := arity
  complaint v :=
    if choices.contains v then none
    else
      some ("invalid choice: " ++ Text.quote v ++ " (choose from " ++
        ", ".intercalate (choices.map Text.quote) ++ ")")

end OptionSpec

/-- Why a command line is not carried out. -/
inductive Refusal where
  | help
  | wrong (message : String)

/-- What a word of a command line is. -/
inductive Word where
  /-- A value, or a word of no meaning. -/
  | plain (text : String)
  /-- The mark behind which nothing is an option. -/
  | divider
  /-- An option, with the value behind its `=` if there is one. -/
  | option (spec : OptionSpec) (attached : Option String)
  /-- A word that looks like an option and is none. -/
  | unknown (text : String)

/-- Whether characters are an optional whole part, a point and a fraction, or a whole
    number, in digits of any script. -/
def isUnsignedNumber (cs : List Char) : Bool :=
  let isDigit (c : Char) : Bool := (Text.digitValue? c).isSome
  match cs.dropWhile isDigit with
  | [] => !cs.isEmpty
  | '.' :: rest => !rest.isEmpty && rest.all isDigit
  | _ => false

/-- Characters without a line feed at the end. -/
def withoutLineEnd (cs : List Char) : List Char :=
  if cs.getLast? == some '\n' then cs.dropLast else cs

/-- Whether a word reads as a negative number, which may end with a line feed. -/
def isNegativeNumber (word : String) : Bool :=
  match withoutLineEnd word.toList with
  | '-' :: rest => isUnsignedNumber rest
  | _ => false

/-- A word at its first `=`: what stands before it, and what behind if there is one. -/
def splitAttached (word : String) : String × Option String :=
  let cs := word.toList
  let front := cs.takeWhile (· != '=')
  match cs.drop front.length with
  | _ :: behind => (String.ofList front, some (String.ofList behind))
  | [] => (word, none)

/-- All names of some options with the option of each. -/
def namedOptions (specs : List OptionSpec) : List (String × OptionSpec) :=
  specs.flatMap fun spec => spec.names.map fun name => (name, spec)

/-- What characters joined to a short option leave as its value. They are further short
    options, of which the ones that ask for the same option again are passed over; what does
    not ask for it cannot be taken for options and stays. -/
def joinedValue (spec : OptionSpec) : List Char → Option (List Char)
  | [] => none
  | c :: rest =>
    if spec.names.contains (String.ofList ['-', c]) then joinedValue spec rest else some (c :: rest)

/-- What is left of the value attached to an option under one of its names: all of it, unless
    a short option without values can pass some of it over. -/
def attachedValue (spec : OptionSpec) (name value : String) : Option String :=
  if name.startsWith "--" || spec.arity != .nothing || value.isEmpty then some value
  else (joinedValue spec value.toList).map String.ofList

/-- The readings of a word as a shortened option, or as a short option with its value
    joined on: the full name, the option and the value. -/
def readings (specs : List OptionSpec) (word : String) :
    List (String × OptionSpec × Option String) :=
  if word.startsWith "--" then
    let (front, attached) := splitAttached word
    (namedOptions specs).filterMap fun (name, spec) =>
      if name.startsWith front then some (name, spec, attached) else none
  else
    let short := String.ofList (word.toList.take 2)
    (namedOptions specs).filterMap fun (name, spec) =>
      if name == short then
        some (name, spec, attachedValue spec name (String.ofList (word.toList.drop 2)))
      else if name.startsWith word then some (name, spec, none)
      else none

/-- Tells a word apart. -/
def classify (specs : List OptionSpec) (word : String) : Except Refusal Word :=
  if !word.startsWith "-" || word == "-" then .ok (.plain word)
  else
    match (namedOptions specs).lookup word with
    | some spec => .ok (.option spec none)
    | none =>
      let (front, attached) := splitAttached word
      match attached, (namedOptions specs).lookup front with
      | some value, some spec => .ok (.option spec (attachedValue spec front value))
      | _, _ =>
        match readings specs word with
        | [(_, spec, value)] => .ok (.option spec value)
        | [] =>
          if isNegativeNumber word || word.toList.contains ' ' then .ok (.plain word)
          else .ok (.unknown word)
        | several =>
          .error (.wrong ("ambiguous option: " ++ word ++ " could match " ++
            ", ".intercalate (several.map fun r => r.1)))

/-- Tells the words of a command line apart. -/
def classifyAll (specs : List OptionSpec) : List String → Except Refusal (List Word)
  | [] => .ok []
  | "--" :: rest => .ok (.divider :: rest.map .plain)
  | word :: rest =>
    match classify specs word with
    | .error refusal => .error refusal
    | .ok first => (classifyAll specs rest).map (first :: ·)

/-- Words up to the next option: those that can be its values, and those that cannot. -/
structure Tail where
  values : List String
  others : List String

/-- The words before the first option, and every option with the words behind it. -/
structure Grouped where
  leading : Tail
  options : List (OptionSpec × Option String × Tail)

/-- Groups words by the option they stand behind. -/
def group : List Word → Grouped
  | [] => { leading := { values := [], others := [] }, options := [] }
  | word :: rest =>
    let g := group rest
    match word with
    | .plain text => { g with leading := { g.leading with values := text :: g.leading.values } }
    | .divider =>
      { g with leading := { values := [], others := "--" :: g.leading.values ++ g.leading.others } }
    | .unknown text =>
      { g with leading := { values := [], others := text :: g.leading.values ++ g.leading.others } }
    | .option spec attached =>
      { leading := { values := [], others := [] }
        options := (spec, attached, g.leading) :: g.options }

/-- An option with its values. -/
structure Chosen where
  name : String
  values : List String

/-- A message about an option. -/
def about (spec : OptionSpec) (message : String) : Refusal :=
  .wrong ("argument " ++ spec.allNames ++ ": " ++ message)

/-- The values of an option, and the words left over. -/
def takeValues (spec : OptionSpec) (attached : Option String) (tail : Tail) :
    Except Refusal (List String × List String) :=
  match attached, spec.arity with
  | some value, .nothing => .error (about spec ("ignored explicit argument " ++ Text.quote value))
  | some value, _ => .ok ([value], tail.values ++ tail.others)
  | none, .nothing => .ok ([], tail.values ++ tail.others)
  | none, .one =>
    match tail.values with
    | value :: rest => .ok ([value], rest ++ tail.others)
    | [] => .error (about spec "expected one argument")
  | none, .several =>
    if tail.values.isEmpty then .error (about spec "expected at least one argument")
    else .ok (tail.values, tail.others)

/-- Takes options in order: the options with their values, and all words left over. -/
def takeOptions : List (OptionSpec × Option String × Tail) →
    Except Refusal (List Chosen × List String)
  | [] => .ok ([], [])
  | (spec, attached, tail) :: rest =>
    match takeValues spec attached tail with
    | .error refusal => .error refusal
    | .ok (values, left) =>
      match values.findSome? spec.complaint with
      | some complaint => .error (about spec complaint)
      | none =>
        if spec.name == OptionSpec.help.name then .error .help
        else
          (takeOptions rest).map fun (chosen, others) =>
            ({ name := spec.name, values := values } :: chosen, left ++ others)

/-- The options of a command line with their values, in order. -/
def parseOptions (specs : List OptionSpec) (words : List String) : Except Refusal (List Chosen) :=
  match classifyAll specs words with
  | .error refusal => .error refusal
  | .ok found =>
    let grouped := group found
    match takeOptions grouped.options with
    | .error refusal => .error refusal
    | .ok (chosen, left) =>
      let unknown := grouped.leading.values ++ grouped.leading.others ++ left
      if unknown.isEmpty then .ok chosen
      else .error (.wrong ("unrecognized arguments: " ++ " ".intercalate unknown))

/-- The values of an option where it was given last. -/
def lastValues? (chosen : List Chosen) (name : String) : Option (List String) :=
  (chosen.reverse.find? fun c => c.name == name).map Chosen.values

/-- The value of an option where it was given last. -/
def lastValue? (chosen : List Chosen) (name : String) : Option String :=
  (lastValues? chosen name).bind List.head?

/-- Whether an option was given. -/
def isChosen (chosen : List Chosen) (name : String) : Bool :=
  chosen.any fun c => c.name == name

end Program

end Roster
