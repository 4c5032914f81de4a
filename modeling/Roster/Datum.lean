import Roster.Number.Slot
import Roster.Text.Quoted

/-!
# Data of a Document

What a document, a label list or a setting holds before anything is known about it:
scalars, dates, bytes, lists, pairs, sets and mappings. A mapping keeps its entries in the
order in which their keys first appeared.

A list or mapping can lie within itself. Such a datum is a loop: its body, under a name,
in which the places where it comes round again hold that name alone. `opened` puts the
loop itself in their stead, one round further, so that the items of a whole datum are
whole again.

A datum has two texts. `repr` shows exactly what it is, so that the number `1` and the
text `1` differ; `display` is the text itself for a text and `repr` for all else. Where a
datum lies within itself, both leave it out.

## Main definitions

* `Datum`: A scalar, a date, bytes, a list, a pair, a set, a mapping or a loop.
* `Datum.opened`: A loop one round further.
* `Datum.repr`, `Datum.display`: The two texts of a datum.
* `Datum.isWritable`: Whether a datum has these texts.
* `Datum.truthy`: Whether a datum counts as true.
* `Datum.items?`: The items of a datum that has any.
* `Datum.sameKey`: Whether two data are one key of a mapping.
-/

namespace Roster

/-- A day of the calendar. -/
structure Day where
  year : Nat
  month : Nat
  day : Nat
  deriving DecidableEq, Repr

/-- A time of day with its distance from universal time in seconds, if one is given. -/
structure Clock where
  hour : Nat
  minute : Nat
  second : Nat
  microsecond : Nat
  offset : Option Int
  deriving DecidableEq, Repr

/-- What a document holds at one place. -/
inductive Datum where
  | null
  | number (value : Number)
  | text (value : String)
  /-- A text of which some codes stand for no character. -/
  | codes (value : List Nat)
  | day (value : Day)
  | moment (value : Day) (time : Clock)
  | bytes (value : List UInt8)
  | list (items : List Datum)
  | pair (first second : Datum)
  | set (items : List Datum)
  | mapping (entries : List (Datum × Datum))
  /-- A list or mapping that lies within itself. -/
  | loop (name : Nat) (body : Datum)
  /-- The place in the loop of a name where it comes round again. -/
  | again (name : Nat)
  deriving Inhabited

namespace Day

/-- Whether a year has a leap day. -/
def isLeap (year : Nat) : Bool := year % 4 == 0 && (year % 100 != 0 || year % 400 == 0)

/-- The number of days of a month. -/
def monthLength (year month : Nat) : Nat :=
  if month = 2 then (if isLeap year then 29 else 28)
  else if month ∈ [4, 6, 9, 11] then 30 else 31

/-- The number of a day, counted from the last day before the first year. -/
def number (d : Day) : Nat :=
  let years := d.year - 1
  let months := (List.range d.month).drop 1
  365 * years + years / 4 - years / 100 + years / 400 +
    months.foldl (fun days month => days + monthLength d.year month) 0 + d.day

/-- The text of a day, largest unit first. -/
def display (d : Day) : String :=
  Decimal.padZeros 4 (Decimal.digits d.year) ++ "-" ++ Decimal.padZeros 2 (Decimal.digits d.month)
    ++ "-" ++ Decimal.padZeros 2 (Decimal.digits d.day)

/-- The three parts of a day, separated by commas. -/
def parts (d : Day) : String :=
  ", ".intercalate [Decimal.digits d.year, Decimal.digits d.month, Decimal.digits d.day]

end Day

namespace Clock

/-- Two digits of a part of a time. -/
def pair (n : Nat) : String := Decimal.padZeros 2 (Decimal.digits n)

/-- A distance from universal time as sign, hours and minutes, and seconds if there are
    any. -/
def offsetText (seconds : Int) : String :=
  let n := seconds.natAbs
  (if seconds < 0 then "-" else "+") ++ pair (n / 3600) ++ ":" ++ pair (n / 60 % 60) ++
    (if n % 60 = 0 then "" else ":" ++ pair (n % 60))

/-- The text of a time, with a fraction only if there is one. -/
def display (c : Clock) : String :=
  pair c.hour ++ ":" ++ pair c.minute ++ ":" ++ pair c.second ++
    (if c.microsecond = 0 then ""
      else "." ++ Decimal.padZeros 6 (Decimal.digits c.microsecond)) ++
    (match c.offset with
      | none => ""
      | some seconds => offsetText seconds)

/-- A span of time by name: whole days, which may be negative, and the seconds left of the
    day. -/
def span (seconds : Int) : String :=
  let days := seconds.fdiv 86400
  let rest := seconds.fmod 86400
  let named := (if days = 0 then [] else ["days=" ++ Decimal.integer days]) ++
    (if rest = 0 then [] else ["seconds=" ++ Decimal.integer rest])
  "datetime.timedelta(" ++ ", ".intercalate named ++ ")"

/-- A distance from universal time by name. -/
def offsetParts (seconds : Int) : String :=
  if seconds = 0 then "datetime.timezone.utc" else "datetime.timezone(" ++ span seconds ++ ")"

/-- The parts of a time, separated by commas; seconds only if they or a fraction are there,
    and a fraction only if there is one. -/
def parts (c : Clock) : String :=
  let fields := [c.hour, c.minute] ++
    (if c.second = 0 ∧ c.microsecond = 0 then []
      else if c.microsecond = 0 then [c.second] else [c.second, c.microsecond])
  ", ".intercalate (fields.map Decimal.digits ++ match c.offset with
    | none => []
    | some seconds => ["tzinfo=" ++ offsetParts seconds])

end Clock

/-- The microseconds from the last midnight before the first year to a time in universal
    time. -/
def Clock.instant (d : Day) (c : Clock) : Int :=
  let seconds : Int := ((d.number * 24 + c.hour) * 60 + c.minute) * 60 + c.second
  (seconds - c.offset.getD 0) * 1000000 + c.microsecond

/-- Whether two times on two days are one moment. A time without a distance from universal
    time is never the same as one with it. -/
def isSameMoment (d₁ : Day) (c₁ : Clock) (d₂ : Day) (c₂ : Clock) : Bool :=
  c₁.offset.isSome == c₂.offset.isSome && Clock.instant d₁ c₁ == Clock.instant d₂ c₂

namespace Datum

/-- The name of the kind of a datum. -/
def kindName : Datum → String
  | .null => "NoneType"
  | .number (.whole _) => "int"
  | .number (.real _) => "float"
  | .number (.truth _) => "bool"
  | .text _ => "str"
  | .codes _ => "str"
  | .day _ => "date"
  | .moment _ _ => "datetime"
  | .bytes _ => "bytes"
  | .list _ => "list"
  | .pair _ _ => "tuple"
  | .set _ => "set"
  | .mapping _ => "dict"
  | .loop _ body => kindName body
  | .again _ => "list"

mutual

/-- A datum with another in all places of a name. -/
def place (name : Nat) (other : Datum) : Datum → Datum
  | .again n => if n = name then other else .again n
  | .loop n body => if n = name then .loop n body else .loop n (place name other body)
  | .list items => .list (placeItems name other items)
  | .pair first second => .pair (place name other first) (place name other second)
  | .mapping entries => .mapping (placeEntries name other entries)
  | d => d

/-- The items of a list with a datum in all places of a name. -/
def placeItems (name : Nat) (other : Datum) : List Datum → List Datum
  | [] => []
  | d :: rest => place name other d :: placeItems name other rest

/-- The entries of a mapping with a datum in all places of a name. -/
def placeEntries (name : Nat) (other : Datum) : List (Datum × Datum) → List (Datum × Datum)
  | [] => []
  | (k, v) :: rest => (k, place name other v) :: placeEntries name other rest

end

/-- A loop one round further; any other datum as it is. -/
def opened : Datum → Datum
  | .loop name body => place name (.loop name body) body
  | d => d

/-- What stands for a list or mapping that is being written already. -/
def ellipsis : Datum → String
  | .mapping _ => "\x7b...\x7d"
  | _ => "[...]"

mutual

/-- The text that shows exactly what a datum is, inside loops with such texts for the places
    where they come round again. -/
def reprIn (around : List (Nat × String)) : Datum → String
  | .null => "None"
  | .number n => n.text
  | .text s => Text.quote s
  | .codes ns => Text.quoteCodes ns
  | .day d => "datetime.date(" ++ d.parts ++ ")"
  | .moment d c => "datetime.datetime(" ++ d.parts ++ ", " ++ c.parts ++ ")"
  | .bytes value => Text.quoteBytes value
  | .list items => "[" ++ ", ".intercalate (reprItems around items) ++ "]"
  | .pair first second => "(" ++ reprIn around first ++ ", " ++ reprIn around second ++ ")"
  | .set [] => "set()"
  | .set (first :: rest) =>
    "\x7b" ++ ", ".intercalate (reprIn around first :: reprItems around rest) ++ "\x7d"
  | .mapping entries => "\x7b" ++ ", ".intercalate (reprEntries around entries) ++ "\x7d"
  | .loop name body =>
    match around.lookup name with
    | some shown => shown
    | none => reprIn ((name, ellipsis body) :: around) body
  | .again name => (around.lookup name).getD (ellipsis .null)

/-- The texts of the items of a list. -/
def reprItems (around : List (Nat × String)) : List Datum → List String
  | [] => []
  | d :: rest => reprIn around d :: reprItems around rest

/-- The texts of the entries of a mapping. -/
def reprEntries (around : List (Nat × String)) : List (Datum × Datum) → List String
  | [] => []
  | (k, v) :: rest => (reprIn around k ++ ": " ++ reprIn around v) :: reprEntries around rest

end

/-- The text that shows exactly what a datum is. -/
def repr (d : Datum) : String := reprIn [] d

mutual

/-- Whether a datum can be written: no integer in it is too long. -/
def isWritable : Datum → Bool
  | .number n => n.isWritable
  | .list items => areWritable items
  | .pair first second => isWritable first && isWritable second
  | .set items => areWritable items
  | .mapping entries => areEntriesWritable entries
  | .loop _ body => isWritable body
  | _ => true

/-- Whether all items of a list can be written. -/
def areWritable : List Datum → Bool
  | [] => true
  | d :: rest => isWritable d && areWritable rest

/-- Whether all entries of a mapping can be written. -/
def areEntriesWritable : List (Datum × Datum) → Bool
  | [] => true
  | (k, v) :: rest => isWritable k && isWritable v && areEntriesWritable rest

end

/-- What stands in running text for a code without a character. -/
def unknownChar : Char := Char.ofNat 0xFFFD

/-- A text of codes, as a plain text if each stands for a character. -/
def ofCodes (ns : List Nat) : Datum :=
  match ns.mapM Text.charOfCode? with
  | some cs => .text (String.ofList cs)
  | none => .codes ns

/-- The text of a datum in running text: a text stands for itself, a day or a time is
    written out. -/
def display : Datum → String
  | .text s => s
  | .codes ns => String.ofList (ns.map fun n => (Text.charOfCode? n).getD unknownChar)
  | .day d => d.display
  | .moment d c => d.display ++ " " ++ c.display
  | d => repr d

/-- Whether a datum counts as true: all but nothing, zero, and what is empty. -/
def truthy : Datum → Bool
  | .null => false
  | .number (.whole i) => i != 0
  | .number (.real x) => !(x == 0.0)
  | .number (.truth b) => b
  | .text s => !s.isEmpty
  | .codes ns => !ns.isEmpty
  | .day _ => true
  | .moment _ _ => true
  | .bytes value => !value.isEmpty
  | .list items => !items.isEmpty
  | .pair _ _ => true
  | .set items => !items.isEmpty
  | .mapping entries => !entries.isEmpty
  | .loop _ body => truthy body
  | .again _ => true

/-- The items of a datum: the characters of a text, the numbers of bytes, the items of a
    list, a pair or a set, the keys of a mapping. Nothing else has items. -/
def items? (d : Datum) : Option (List Datum) :=
  match d.opened with
  | .text s => some (s.toList.map fun c => .text (String.ofList [c]))
  | .codes ns => some (ns.map fun n => ofCodes [n])
  | .bytes value => some (value.map fun b => .number (.whole b.toNat))
  | .list items => some items
  | .pair first second => some [first, second]
  | .set items => some items
  | .mapping entries => some (entries.map Prod.fst)
  | _ => none

/-- The number that a datum is, if it is one. -/
def number? : Datum → Option Number
  | .number n => some n
  | _ => none

/-- Whether a datum may be a key of a mapping. -/
def isKey : Datum → Bool
  | .list _ => false
  | .pair first second => isKey first && isKey second
  | .set _ => false
  | .mapping _ => false
  | .loop _ _ => false
  | .again _ => false
  | _ => true

/-- Whether two data are the same key: numbers by value, times with a distance from universal
    time by their instant, all else by kind and content. -/
def sameKey : Datum → Datum → Bool
  | .null, .null => true
  | .number a, .number b => a.same b
  | .text a, .text b => a == b
  | .codes a, .codes b => a == b
  | .day a, .day b => decide (a = b)
  | .moment a b, .moment c d => isSameMoment a b c d
  | .bytes a, .bytes b => a == b
  | .pair a b, .pair c d => sameKey a c && sameKey b d
  | _, _ => false

/-- The value of a text key in a mapping's entries. -/
def lookup? (key : String) (entries : List (Datum × Datum)) : Option Datum :=
  (entries.find? fun e => e.1.sameKey (.text key)).map Prod.snd

/-- The items of a set in the order in which it shows them, which is known for numbers; other
    items keep their order. -/
def setOf (items : List Datum) : Datum :=
  match items.mapM number? with
  | some numbers => .set ((Slot.sort Number.residue numbers).map .number)
  | none => .set items

end Datum

end Roster
