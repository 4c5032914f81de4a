import Roster.Datum

/-!
# Faults

Every way in which a request can fail, by its cause. A fault of the cost matrix also
has a class, since callers tell the classes apart and not only the texts.

`message` is the one place where causes are put into words. `isReportable` separates
bad values and missing files, which a command line reports to its user, from misuse,
which ends it.

## Main definitions

* `MatrixFault`: What is wrong with a cost matrix.
* `Fault`: What is wrong with a request.
* `Fault.message`: The fault in words.
* `Fault.isReportable`: Whether a command line reports the fault and goes on.
-/

namespace Roster

/-- The class of a fault of a cost matrix. -/
inductive MatrixFault.Reason where
  | dimension
  | ragged
  | nonFinite
  | negative
  | sentinel
  deriving DecidableEq, Repr

/-- What is wrong with a cost matrix. -/
inductive MatrixFault where
  | negativeSize (workers jobs : Int)
  | ragged (widths : List Nat)
  | notTwoDimensional (shape : List Nat)
  | sizeMismatch (workers jobs : Int) (shape : List Nat)
  | notFinite (row column : Nat) (cost : Float)
  | negative (row column : Nat) (cost : Float)
  | notBelowSentinel (row column : Nat) (cost : Float) (sentinel : Number)
  | labelCount (workerLabels jobLabels workers jobs : Nat)
  | notMapping (path kind : String)

namespace MatrixFault

/-- The class of a fault. -/
def reason : MatrixFault → Reason
  | .negativeSize _ _ => .dimension
  | .ragged _ => .ragged
  | .notTwoDimensional _ => .dimension
  | .sizeMismatch _ _ _ => .dimension
  | .notFinite _ _ _ => .nonFinite
  | .negative _ _ _ => .negative
  | .notBelowSentinel _ _ _ _ => .sentinel
  | .labelCount _ _ _ _ => .dimension
  | .notMapping _ _ => .dimension

/-- A shape in parentheses; a single dimension keeps a comma. -/
def shapeText : List Nat → String
  | [n] => "(" ++ Decimal.digits n ++ ",)"
  | shape => "(" ++ ", ".intercalate (shape.map Decimal.digits) ++ ")"

/-- The position and the value of a cell. -/
def cellText (row column : Nat) : String :=
  "Cost at " ++ shapeText [row, column]

/-- A fault of a cost matrix in words. -/
def message : MatrixFault → String
  | .negativeSize n m =>
    "Dimensions must be non-negative, got n=" ++ Decimal.integer n ++ ", m=" ++ Decimal.integer m
  | .ragged widths =>
    "Cost matrix rows have differing lengths: [" ++
      ", ".intercalate (widths.map Decimal.digits) ++ "]"
  | .notTwoDimensional shape => "Cost matrix must be 2-D, got shape " ++ shapeText shape
  | .sizeMismatch n m shape =>
    "Declared size " ++ Decimal.integer n ++ "x" ++ Decimal.integer m ++
      " does not match cost matrix shape " ++ shapeText shape
  | .notFinite i j cost => cellText i j ++ " is not finite: " ++ Decimal.plain cost
  | .negative i j cost => cellText i j ++ " is negative: " ++ Decimal.plain cost
  | .notBelowSentinel i j cost sentinel =>
    cellText i j ++ " = " ++ Decimal.plain cost ++ " is not below the padding sentinel " ++
      sentinel.text
  | .labelCount workerLabels jobLabels n m =>
    "Got " ++ Decimal.digits workerLabels ++ " worker labels and " ++ Decimal.digits jobLabels ++
      " job labels for a " ++ Decimal.digits n ++ "x" ++ Decimal.digits m ++ " matrix"
  | .notMapping path kind =>
    path ++ " must hold a mapping with a " ++ "\x60costs:\x60" ++ " key, got " ++ kind

/-- The declared sizes that a fault tells. The padding sentinel is told as well, but a cost is
    compared with it only if it has a double, and then it is short enough to be written. -/
def sizes : MatrixFault → List Datum
  | .negativeSize n m => [.number (.whole n), .number (.whole m)]
  | .sizeMismatch n m _ => [.number (.whole n), .number (.whole m)]
  | _ => []

end MatrixFault

/-- What is wrong with a day or a time of day. -/
inductive CalendarFault where
  | year (year : Nat)
  | month
  | day
  | hour
  | minute
  | second
  /-- The distance from universal time, in seconds, is a day or more. -/
  | offset (seconds : Int)

/-- A fault of a day or a time in words. -/
def CalendarFault.message : CalendarFault → String
  | .year y => "year " ++ Decimal.digits y ++ " is out of range"
  | .month => "month must be in 1..12"
  | .day => "day is out of range for month"
  | .hour => "hour must be in 0..23"
  | .minute => "minute must be in 0..59"
  | .second => "second must be in 0..59"
  | .offset seconds =>
    "offset must be a timedelta strictly between -timedelta(hours=24) and " ++
      "timedelta(hours=24), not " ++ Clock.span seconds ++ "."

/-- The forms of compressed files. -/
inductive Compression where
  | gzip
  | bzip2
  | lzma
  deriving DecidableEq

/-- What is wrong with the host of an address. -/
inductive AddressFault where
  /-- Brackets stand alone, or not around the whole host. -/
  | brackets
  /-- What is in brackets is a number of four parts. -/
  | shortNumber
  /-- What is in brackets begins like a number in a form yet to come, and is none. -/
  | futureNumber
  /-- What is in brackets is no number of a machine. -/
  | notANumber (text : String)
  /-- A character stands for a mark of an address in another width or form. -/
  | disguise (host : String)

/-- A fault of an address in words. -/
def AddressFault.message : AddressFault → String
  | .brackets => "Invalid IPv6 URL"
  | .shortNumber => "An IPv4 address cannot be in brackets"
  | .futureNumber => "IPvFuture address is invalid"
  | .notANumber text => Text.quote text ++ " does not appear to be an IPv4 or IPv6 address"
  | .disguise host => "netloc '" ++ host ++ "' contains invalid characters under NFKC normalization"

/-- What is wrong with a request. -/
inductive Fault where
  /-- The cost matrix violates a precondition. -/
  | matrix (cause : MatrixFault)
  /-- The padding sentinel is not positive or not below the search infinity. -/
  | sentinelOrder (padding infinity : Datum)
  /-- The scale of the integer solver is not positive. -/
  | scaleNotPositive (scale : Datum)
  /-- No solver has this name. -/
  | unknownSolver (name : String)
  /-- The smaller side is too large to try every matching. -/
  | tooManyMatchings (limit workers jobs : Nat)
  /-- Scaled costs leave the range of the integer solver. -/
  | scaledRange
  /-- No matching of finite cost exists, or the costs cannot be ordered. -/
  | noFiniteMatching
  /-- A text stands where a number is needed and is none. -/
  | notANumber (given : Datum)
  /-- A text stands where an integer in a base is needed and is none. -/
  | notAnInteger (base : Nat) (text : String)
  /-- An integer is too long to be read, with the number of its digits, or to be written. -/
  | overlongInteger (digits : Option Nat)
  /-- A day or a time of day does not exist. -/
  | calendar (cause : CalendarFault)
  /-- A code stands for no character. -/
  | noCharacter
  /-- A field of a table is no number. -/
  | fieldNotANumber (text : String) (row column : Nat)
  /-- A line of a table has another number of fields than the first. -/
  | fieldCountChanged (first here line : Nat)
  /-- The nesting is uneven: so many dimensions, with this shape, are even. -/
  | unevenNesting (shape : List Nat)
  /-- The nesting has more dimensions than an array can have. -/
  | tooManyDimensions (limit : Nat)
  /-- So many entries cannot fill a table of this shape. -/
  | cannotReshape (entries : Nat) (shape : List Int)
  /-- The way back of a search closes a circle, so the search has no end. -/
  | endless
  /-- A matrix does not fit into the padded square. -/
  | doesNotFit
  /-- A value is out of its range. -/
  | badValue
  /-- A value is of a kind that cannot stand here. -/
  | wrongKind
  /-- A value lacks what is asked of it. -/
  | lacksField
  /-- A word stands where a truth value is needed and names none. -/
  | notATruth (word : String)
  /-- An index lies outside. -/
  | outOfBounds
  /-- A number is too large for a double. -/
  | tooLarge
  /-- A document does not exist. -/
  | missingFile (path : String)
  /-- A table does not exist. -/
  | missingTable (path : String)
  /-- A directory stands where a file is needed. -/
  | isDirectory (path : String)
  /-- A file stands where a directory is needed. -/
  | notDirectory (path : String)
  /-- A path, or a name on it, is too long. -/
  | overlongName (path : String)
  /-- A path holds a null character. -/
  | nullInPath
  /-- A path is an address with a host that cannot be. -/
  | address (cause : AddressFault)
  /-- A file is not compressed in the form that its ending names. -/
  | notCompressed (form : Compression)
  /-- A compressed file ends before its data do. -/
  | endsEarly
  /-- A document is nested too deeply. -/
  | tooDeep
  /-- A document cannot be read. -/
  | malformedDocument
  /-- A figure is to be set by a program that is not there. -/
  | noTypesetter

namespace Fault

/-- A text between quotes, cut off behind so many characters. -/
def quoteUpTo (limit : Nat) (text : String) : String :=
  String.ofList ((Text.quote text).toList.take limit)

/-- The longest part of a field that a message quotes. -/
def quotedFieldLimit : Nat := 100

/-- The longest part of an integer's text that a message quotes. -/
def quotedIntegerLimit : Nat := 200

/-- What is said of an integer that is too long. -/
def overlongText (digits : Option Nat) : String :=
  "Exceeds the limit (" ++ Decimal.digits Whole.maxDigits ++
    " digits) for integer string conversion" ++
    (digits.elim "" fun n => ": value has " ++ Decimal.digits n ++ " digits") ++
    "; use sys.set_int_max_str_digits() to increase the limit"

/-- A message that tells some data, which cannot be told if one of them is too long to be
    written. -/
def telling (told : List Datum) (text : String) : String :=
  if told.all Datum.isWritable then text else overlongText none

/-- A fault in words. -/
def message : Fault → String
  | .matrix cause => telling cause.sizes cause.message
  | .sentinelOrder padding infinity =>
    telling [padding, infinity] (
      "padding_sentinel must be positive and below search_infinity, got padding_sentinel=" ++
        padding.display ++ ", search_infinity=" ++ infinity.display)
  | .scaleNotPositive scale =>
    telling [scale] ("ortools_cost_scale must be positive, got " ++ scale.display)
  | .unknownSolver name =>
    "Unknown solver '" ++ name ++ "'. Choose from: bruteforce, hungarian, ortools, scipy"
  | .tooManyMatchings limit n m =>
    "BruteForceSolver supports at most " ++ Decimal.digits limit ++
      " on the smaller side, got " ++ Decimal.digits n ++ "x" ++ Decimal.digits m
  | .scaledRange => "OR-Tools linear sum assignment failed with status Status.POSSIBLE_OVERFLOW"
  | .noFiniteMatching => "cost matrix is infeasible"
  | .notANumber given => "could not convert string to float: " ++ given.repr
  | .notAnInteger base text =>
    "invalid literal for int() with base " ++ Decimal.digits base ++ ": " ++
      quoteUpTo quotedIntegerLimit text
  | .overlongInteger digits => overlongText digits
  | .calendar cause => cause.message
  | .noCharacter => "chr() arg not in range(0x110000)"
  | .fieldNotANumber text row column =>
    "could not convert string " ++ quoteUpTo quotedFieldLimit text ++ " to float64 at row " ++
      Decimal.digits row ++ ", column " ++ Decimal.digits column ++ "."
  | .fieldCountChanged first here line =>
    "the number of columns changed from " ++ Decimal.digits first ++ " to " ++
      Decimal.digits here ++ " at row " ++ Decimal.digits line ++
      "; use \x60usecols\x60 to select a subset and avoid this error"
  | .unevenNesting shape =>
    "setting an array element with a sequence. The requested array has an inhomogeneous shape " ++
      "after " ++ Decimal.digits shape.length ++ " dimensions. The detected shape was " ++
      MatrixFault.shapeText shape ++ " + inhomogeneous part."
  | .tooManyDimensions limit =>
    "setting an array element with a sequence. The requested array would exceed the maximum " ++
      "number of dimension of " ++ Decimal.digits limit ++ "."
  | .cannotReshape entries shape =>
    "cannot reshape array of size " ++ Decimal.digits entries ++ " into shape (" ++
      ",".intercalate (shape.map Decimal.integer) ++ ")"
  | .endless => "the search for a matching does not end"
  | .doesNotFit => "cost matrix does not fit into the padded square"
  | .badValue => "value out of range"
  | .wrongKind => "value of the wrong kind"
  | .lacksField => "value without the field that is asked for"
  | .notATruth word => "could not convert string to bool: " ++ Text.quote word
  | .outOfBounds => "index out of bounds"
  | .tooLarge => "number too large for a double"
  | .missingFile path => "[Errno 2] No such file or directory: " ++ Text.quote path
  | .missingTable path => path ++ " not found."
  | .isDirectory path => "[Errno 21] Is a directory: " ++ Text.quote path
  | .notDirectory path => "[Errno 20] Not a directory: " ++ Text.quote path
  | .overlongName path => "[Errno 36] File name too long: " ++ Text.quote path
  | .nullInPath => "embedded null byte"
  | .address cause => cause.message
  | .notCompressed _ => "not a compressed file"
  | .endsEarly => "Compressed file ended before the end-of-stream marker was reached"
  | .tooDeep => "document nested too deeply"
  | .malformedDocument => "malformed document"
  | .noTypesetter =>
    "'xelatex' not found; install it or change rcParams['pgf.texsystem'] to an available TeX " ++
      "implementation"

/-- Whether a command line reports the fault to its user: bad values and missing files. -/
def isReportable : Fault → Bool
  | .scaledRange => false
  | .endless => false
  | .wrongKind => false
  | .lacksField => false
  | .notATruth _ => false
  | .outOfBounds => false
  | .tooLarge => false
  | .isDirectory _ => false
  | .notDirectory _ => false
  | .overlongName _ => false
  | .notCompressed _ => false
  | .endsEarly => false
  | .tooDeep => false
  | .malformedDocument => false
  | .noTypesetter => false
  | _ => true

/-- Whether the message tells what the fault says; a setting or a size too long to be written
    keeps it from that. -/
def isTold : Fault → Bool
  | .matrix cause => cause.sizes.all Datum.isWritable
  | .sentinelOrder padding infinity => padding.isWritable && infinity.isWritable
  | .scaleNotPositive scale => scale.isWritable
  | _ => true

end Fault

end Roster
