import Roster.Fault
import Roster.Text.Base64

/-!
# The Types of Scalars

A plain scalar without a tag has the first type whose form its text has: a truth value,
a float, an integer, nothing, or a time. All other texts are texts. A line break at the
end of a text is no part of its form, but of what is read.

The forms are those of the older version of the format: a float needs a point, and an
exponent its sign; integers may be octal, hexadecimal or binary, and both may count in
sixties, with the parts separated by colons. Underscores between digits are ignored.

Three things can go wrong behind a form: digits may be missing once the underscores are
gone, a day may not exist, and two texts are marks that cannot stand as values.

## Main definitions

* `Kind`: The types of scalars.
* `kindOf`: The type whose form a text has.
* `read`: The datum of a text that has a type.
* `readCodes`: The datum of a text of codes that has a type.
-/

namespace Roster

namespace Yaml

namespace Scalar

/-! ## Forms -/

/-- The characters behind an optional sign. -/
def unsigned : List Char → List Char
  | '-' :: rest => rest
  | '+' :: rest => rest
  | cs => cs

/-- Whether a character is a digit or an underscore. -/
def isDigitMark (c : Char) : Bool := c.isDigit || c == '_'

/-- Whether some characters are the exponent of a float, or none at all. -/
def isExponent : List Char → Bool
  | [] => true
  | e :: sign :: c :: rest =>
    (e == 'e' || e == 'E') && (sign == '+' || sign == '-') && (c :: rest).all Char.isDigit
  | _ => false

/-- Whether some characters are digits and underscores, a point behind which may be more,
    and an exponent; the first is a digit. -/
def isPointed (cs : List Char) : Bool :=
  match cs with
  | c :: _ =>
    c.isDigit &&
      match cs.dropWhile isDigitMark with
      | '.' :: rest => isExponent (rest.dropWhile isDigitMark)
      | _ => false
  | [] => false

/-- Whether some characters are a point with digits behind it and an exponent. -/
def isFraction : List Char → Bool
  | '.' :: c :: rest => c.isDigit && isExponent (rest.dropWhile isDigitMark)
  | _ => false

/-- Whether a part between colons is one or two digits below sixty. -/
def isSixtieth (cs : List Char) : Bool :=
  match cs with
  | [c] => c.isDigit
  | [b, c] => '0' ≤ b && b ≤ '5' && c.isDigit
  | _ => false

/-- The parts of a text between colons. -/
def colonParts (cs : List Char) : List (List Char) :=
  ((String.ofList cs).splitOn ":").map String.toList

/-- Whether the first of some parts consists of digits and underscores and starts with a
    digit that passes a test, and there are further parts, all sixtieths. -/
def isSexagesimal (leads : Char → Bool) : List (List Char) → Bool
  | (c :: rest) :: part :: parts =>
    leads c && rest.all isDigitMark && (part :: parts).all isSixtieth
  | _ => false

/-- Whether some characters count in sixties and end with a point and a fraction. -/
def isSexagesimalFloat (cs : List Char) : Bool :=
  let whole := cs.takeWhile (· != '.')
  match cs.dropWhile (· != '.') with
  | '.' :: fraction => fraction.all isDigitMark && isSexagesimal Char.isDigit (colonParts whole)
  | _ => false

/-- The ways to write the infinity without a sign. -/
def infinityNames : List String := [".inf", ".Inf", ".INF"]

/-- The ways to write the value that is no number. -/
def notANumberNames : List String := [".nan", ".NaN", ".NAN"]

/-- Whether a text has the form of a float. -/
def isFloat (text : String) : Bool :=
  let cs := text.toList
  let bare := unsigned cs
  isPointed bare || isFraction cs || isSexagesimalFloat bare ||
    infinityNames.contains (String.ofList bare) || notANumberNames.contains text

/-- Whether digits of a base and underscores, at least one, make up some characters. -/
def isBased (isDigit : Char → Bool) (cs : List Char) : Bool :=
  !cs.isEmpty && cs.all fun c => isDigit c || c == '_'

/-- Whether a character is an octal digit. -/
def isOctal (c : Char) : Bool := '0' ≤ c && c ≤ '7'

/-- Whether a character is a binary digit. -/
def isBinary (c : Char) : Bool := c == '0' || c == '1'

/-- Whether a character is a hexadecimal digit. -/
def isHexadecimal (c : Char) : Bool :=
  c.isDigit || ('a' ≤ c && c ≤ 'f') || ('A' ≤ c && c ≤ 'F')

/-- Whether a character is a digit but not zero. -/
def isLeading (c : Char) : Bool := '1' ≤ c && c ≤ '9'

/-- Whether a text has the form of an integer. -/
def isInt (text : String) : Bool :=
  match unsigned text.toList with
  | ['0'] => true
  | '0' :: 'b' :: rest => isBased isBinary rest
  | '0' :: 'x' :: rest => isBased isHexadecimal rest
  | '0' :: rest => isBased isOctal rest
  | c :: rest =>
    isLeading c && rest.all isDigitMark || isSexagesimal isLeading (colonParts (c :: rest))
  | [] => false

/-- The texts that are true. -/
def trueNames : List String :=
  ["yes", "Yes", "YES", "true", "True", "TRUE", "on", "On", "ON"]

/-- The texts that are false. -/
def falseNames : List String :=
  ["no", "No", "NO", "false", "False", "FALSE", "off", "Off", "OFF"]

/-- The texts that stand for nothing. -/
def nullNames : List String := ["~", "null", "Null", "NULL", ""]

/-! ## Values -/

/-- A text without its underscores. -/
def withoutMarks (text : String) : List Char := text.toList.filter (· != '_')

/-- Whether a text starts with a minus. -/
def isNegative (cs : List Char) : Bool := cs.head? == some '-'

/-- The value of a digit of any base up to sixteen. -/
def digitValue (c : Char) : Nat :=
  if c.isDigit then c.toNat - 48 else if 'a' ≤ c then c.toNat - 87 else c.toNat - 55

/-- The integer of digits in a base, of which there has to be one. Blanks may stand around
    it, and a sign and a zero with the mark of the base before it. -/
def based (base : Nat) (mark : Char) (isDigit : Char → Bool) (cs : List Char) :
    Except Fault Int :=
  let (negative, marked) := Decimal.spanSign ((Text.stripSpacing cs).map Text.toAsciiDigit)
  let digits := match marked with
    | '0' :: c :: rest => if c.toLower == mark then rest else marked
    | _ => marked
  if digits.isEmpty || !digits.all isDigit then .error (.notAnInteger base (String.ofList cs))
  else
    let n : Int := (digits.foldl (fun (n : Nat) c => base * n + digitValue c) 0 : Nat)
    .ok (if negative then -n else n)

/-- The integer of decimal digits, of which there must not be too many. -/
def decimal (cs : List Char) : Except Fault Int :=
  match Whole.read? (String.ofList cs) with
  | some i => .ok i
  | none =>
    if Whole.maxDigits < cs.length && cs.all Char.isDigit then
      .error (.overlongInteger (some cs.length))
    else .error (.notAnInteger 10 (String.ofList cs))

/-- The integer of an unsigned text without underscores, of which a character has to be
    left. -/
def magnitude (cs : List Char) : Except Fault Int :=
  match cs with
  | ['0'] => .ok 0
  | '0' :: 'b' :: rest => based 2 'b' isBinary rest
  | '0' :: 'x' :: rest => based 16 'x' isHexadecimal rest
  | '0' :: rest => based 8 'o' isOctal ('0' :: rest)
  | [] => .error .outOfBounds
  | cs =>
    if cs.contains ':' then
      (colonParts cs).foldlM (fun sum part => (decimal part).map (60 * sum + ·)) 0
    else decimal cs

/-- The integer that a text of this form is. -/
def readInt (text : String) : Except Fault Datum :=
  let cs := withoutMarks text
  (magnitude (unsigned cs)).map fun i => .number (.whole (if isNegative cs then -i else i))

/-- The double of a part between colons. -/
def floatPart (cs : List Char) : Except Fault Float :=
  match Decimal.read? (String.ofList cs) with
  | some x => .ok x
  | none => .error (.notANumber (.text (String.ofList cs)))

/-- The sum of parts that count sixties, from the last to the first. A unit has to be in the
    range of a double. -/
def sumParts : List Float → (unit : Nat) → Float → Except Fault Float
  | [], _, sum => .ok sum
  | part :: rest, unit, sum =>
    match Binary64.ofInt? unit with
    | some x => sumParts rest (unit * 60) (sum + part * x)
    | none => .error .tooLarge

/-- The double that a text of this form is. -/
def readFloat (text : String) : Except Fault Datum :=
  let cs := (withoutMarks text).map Char.toLower
  let bare := unsigned cs
  let sign (x : Float) : Datum := .number (.real (if isNegative cs then -1.0 * x else 1.0 * x))
  if cs.isEmpty then .error .outOfBounds
  else if String.ofList bare == ".inf" then .ok (sign Decimal.infinity)
  else if String.ofList bare == ".nan" then .ok (.number (.real Decimal.notANumber))
  else if bare.contains ':' then do
    let parts ← (colonParts bare).mapM floatPart
    let sum ← sumParts parts.reverse 1 0.0
    return sign sum
  else (floatPart bare).map sign

/-! ## Days and times -/

/-- A number of so many digits at the front, and what follows. -/
def fixedDigits (count : Nat) (cs : List Char) : Option (Nat × List Char) :=
  let front := cs.take count
  if front.length = count ∧ front.all Char.isDigit then
    some (Decimal.ofDigits front, cs.drop count)
  else none

/-- A number of one or two digits at the front, and what follows. -/
def shortDigits (cs : List Char) : Option (Nat × List Char) :=
  match fixedDigits 2 cs with
  | some found => some found
  | none => fixedDigits 1 cs

/-- What follows a character that has to stand at the front. -/
def expect (c : Char) : List Char → Option (List Char)
  | x :: rest => if x == c then some rest else none
  | [] => none

/-- What is wrong with a day, if anything. -/
def dayFault? (d : Day) : Option CalendarFault :=
  if d.year = 0 then some (.year d.year)
  else if d.month = 0 ∨ 12 < d.month then some .month
  else if d.day = 0 ∨ Day.monthLength d.year d.month < d.day then some .day
  else none

/-- What is wrong with a distance from universal time, if anything. -/
def offsetFault? (c : Clock) : Option CalendarFault :=
  match c.offset with
  | some seconds => if 86400 ≤ seconds.natAbs then some (.offset seconds) else none
  | none => none

/-- What is wrong with a time of day apart from its distance, if anything. -/
def timeFault? (c : Clock) : Option CalendarFault :=
  if 24 ≤ c.hour then some .hour
  else if 60 ≤ c.minute then some .minute
  else if 60 ≤ c.second then some .second
  else none

/-- The zone behind a time: nothing, universal time, or a signed distance. -/
def zone (cs : List Char) : Option (Option Int) :=
  match cs.dropWhile fun c => c == ' ' || c == '\t' with
  | [] => if cs.isEmpty then some none else none
  | ['Z'] => some (some 0)
  | sign :: rest =>
    if sign != '+' && sign != '-' then none
    else
      (shortDigits rest).bind fun (hours, rest) =>
        let minutes : Option Nat := match rest with
          | [] => some 0
          | ':' :: rest => (fixedDigits 2 rest).bind fun (n, rest) =>
              if rest.isEmpty then some n else none
          | _ => none
        minutes.map fun minutes =>
          let seconds : Int := 3600 * hours + 60 * minutes
          some (if sign == '-' then -seconds else seconds)

/-- The fraction of a second behind a point in millionths, and what follows; further digits
    are dropped. -/
def fraction (cs : List Char) : Nat × List Char :=
  match cs with
  | '.' :: rest =>
    let found := (rest.takeWhile Char.isDigit).take 6
    (Decimal.ofDigits found * Nat.pow 10 (6 - found.length), rest.dropWhile Char.isDigit)
  | cs => (0, cs)

/-- The gap between a day and a time: a letter or blanks. -/
def timeGap : List Char → Option (List Char)
  | 'T' :: rest => some rest
  | 't' :: rest => some rest
  | c :: rest =>
    if c == ' ' || c == '\t' then some (rest.dropWhile fun c => c == ' ' || c == '\t') else none
  | [] => none

/-- The day and time of a text with the form of a time. -/
def moment? (text : String) : Option Datum := do
  let (year, cs) ← fixedDigits 4 text.toList
  let (month, cs) ← shortDigits (← expect '-' cs)
  let (day, cs) ← shortDigits (← expect '-' cs)
  let (hour, cs) ← shortDigits (← timeGap cs)
  let (minute, cs) ← fixedDigits 2 (← expect ':' cs)
  let (second, cs) ← fixedDigits 2 (← expect ':' cs)
  let (micro, cs) := fraction cs
  let offset ← zone cs
  return .moment ⟨year, month, day⟩ ⟨hour, minute, second, micro, offset⟩

/-- The day of a text with the form of a day, whose month and day `part` reads. -/
def day? (part : List Char → Option (Nat × List Char)) (text : String) : Option Datum := do
  let (year, cs) ← fixedDigits 4 text.toList
  let (month, cs) ← part (← expect '-' cs)
  let (day, cs) ← part (← expect '-' cs)
  if cs.isEmpty then return .day ⟨year, month, day⟩ else none

/-- Whether a text without a tag has the form of a time: a day alone has two digits for its
    month and two for the day. -/
def isTime (text : String) : Bool :=
  (day? (fixedDigits 2) text).isSome || (moment? text).isSome

/-- The day or time of a text. -/
def time? (text : String) : Option Datum :=
  (day? shortDigits text).orElse fun _ => moment? text

/-- A day or time, if it exists. -/
def checkTime (d : Datum) : Except Fault Datum :=
  let fault := match d with
    | .day day => dayFault? day
    | .moment day clock =>
      ((offsetFault? clock).orElse fun _ => dayFault? day).orElse fun _ => timeFault? clock
    | _ => none
  match fault with
  | some cause => .error (.calendar cause)
  | none => .ok d

/-! ## Types -/

/-- The mark of a merged mapping. -/
def mergeMark : String := "<<"

/-- The mark of a default value. -/
def valueMark : String := "="

/-- The types of scalars, and two marks that cannot stand as values. -/
inductive Kind where
  | text
  | int
  | float
  | truth
  | null
  | time
  | bytes
  | merge
  | default
  deriving DecidableEq

/-- A text without a line break at its end, on which its form does not depend. -/
def formOf (text : String) : String :=
  match text.toList.reverse with
  | '\n' :: rest => String.ofList rest.reverse
  | _ => text

/-- The type whose form a text has. -/
def kindOf (text : String) : Kind :=
  let form := formOf text
  if trueNames.contains form || falseNames.contains form then .truth
  else if isFloat form then .float
  else if isInt form then .int
  else if form == mergeMark then .merge
  else if form == valueMark then .default
  else if text.isEmpty || (!form.isEmpty && nullNames.contains form) then .null
  else if isTime form then .time
  else .text

/-- The truth value of a text, whatever the case of its letters. -/
def readTruth (text : String) : Except Fault Datum :=
  let lowered := String.ofList (text.toList.map Char.toLower)
  if trueNames.contains lowered then .ok (.number (.truth true))
  else if falseNames.contains lowered then .ok (.number (.truth false))
  else .error (.notATruth lowered)

/-- The day or time of a text that has to have the form of one. -/
def readTime (text : String) : Except Fault Datum :=
  match time? (formOf text) with
  | some d => checkTime d
  | none => .error .lacksField

/-- The bytes of a text, which has to be ASCII. -/
def readBytes (text : String) : Except Fault Datum :=
  let cs := text.toList
  match if cs.all fun c => c.toNat < 128 then Base64.decode? cs else none with
  | some bytes => .ok (.bytes bytes)
  | none => .error .malformedDocument

/-- The datum of a text that has a type. -/
def read (kind : Kind) (text : String) : Except Fault Datum :=
  match kind with
  | .text => .ok (.text text)
  | .int => readInt text
  | .float => readFloat text
  | .truth => readTruth text
  | .null => .ok .null
  | .time => readTime text
  | .bytes => readBytes text
  | .merge => .error .malformedDocument
  | .default => .error .malformedDocument

/-- The datum of a text of codes that has a type. Such a text is the name of nothing. -/
def readCodes (kind : Kind) (codes : List Nat) : Except Fault Datum :=
  match kind with
  | .text => .ok (.codes codes)
  | .null => .ok .null
  | .float => .error (.notANumber (.codes codes))
  | .int => .error (.notAnInteger 10 (Datum.codes codes).display)
  | .truth => .error (.notATruth (Datum.codes codes).display)
  | .time => .error .lacksField
  | _ => .error .malformedDocument

/-- Whether a text calls the value that is no number by its name. -/
def namesNotANumber (text : String) : Bool :=
  String.ofList (unsigned ((withoutMarks text).map Char.toLower)) == ".nan"

end Scalar

end Yaml

end Roster
