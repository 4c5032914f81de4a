import Roster.Fault

/-!
# Compressed Files

A file may be compressed in one of three forms, which the ending of its name tells. The
files here hold text, and text is never compressed data: each form begins with bytes
that no text begins with, or goes on with such bytes. So all that is left to decide is
how reading fails. A file that agrees with its form as far as it goes ends early; any
other is not compressed. Only the first form takes an empty file for empty data.

## Main definitions

* `Compression.ofEnding?`: The form that the ending of a name tells.
* `Compression.unpack`: What reading a text as compressed data gives.
-/

namespace Roster

namespace Compression

/-- The endings of the names of compressed files with their forms, in the order in which
    files are looked for. -/
def endings : List (String × Compression) :=
  [(".bz2", .bzip2), (".gz", .gzip), (".xz", .lzma), (".lzma", .lzma)]

/-- The form that an ending tells. -/
def ofEnding? (ending : String) : Option Compression := endings.lookup ending

/-- How reading some bytes fails, of which the first have to be of the given kinds. -/
def failure (form : Compression) : List (UInt8 → Bool) → List UInt8 → Fault
  | _, [] => .endsEarly
  | [], _ => .notCompressed form
  | isNext :: kinds, b :: rest =>
    if isNext b then failure form kinds rest else .notCompressed form

/-- The bytes that have to stand for some characters. -/
def exactly (text : String) : List (UInt8 → Bool) :=
  text.toList.map fun c => (· == c.toNat.toUInt8)

/-- The first bytes of the second form: a mark and the size of the blocks. -/
def bzip2Start : List (UInt8 → Bool) :=
  exactly "BZh" ++ [fun b => '1'.toNat ≤ b.toNat && b.toNat ≤ '9'.toNat]

/-- The first bytes of a block: a mark, a check value, and a number of which all but the last
    byte is read before it turns out too large. -/
def bzip2Block : List (UInt8 → Bool) := exactly "1AY&SY" ++ List.replicate 7 fun _ => true

/-- The first bytes of the end, behind which a byte comes that no text has there. -/
def bzip2End : List (UInt8 → Bool) := exactly "\x17rE8P"

/-- How reading some bytes in the second form fails: blocks or the end have to come behind the
    start. -/
def bzip2Failure (bytes : List UInt8) : Fault :=
  let isEnd := (bytes.drop bzip2Start.length).head? == some 0x17
  failure .bzip2 (bzip2Start ++ if isEnd then bzip2End else bzip2Block) bytes

/-- Whether the first byte of the third form holds three admissible settings, counted in nines
    and fives. -/
def isSettings (b : UInt8) : Bool :=
  b.toNat ≤ 224 && b.toNat % 9 + b.toNat % 45 / 9 ≤ 4

/-- The number of some bytes, the least first. -/
def number (bytes : List UInt8) : Nat := bytes.foldr (fun b n => b.toNat + 256 * n) 0

/-- Whether a number is a power of two, or the sum of two that follow one another. -/
def isWindow (n : Nat) : Bool :=
  (List.range 32).any fun k => n == Nat.pow 2 k || n == Nat.pow 2 k + Nat.pow 2 (k + 1)

/-- How reading some bytes in the third form fails: settings, the size of a window in four
    bytes, and a length in eight have to come first. -/
def lzmaFailure (bytes : List UInt8) : Fault :=
  let settings := bytes.take 1
  let window := (bytes.drop 1).take 4
  if bytes.head? == some 'L'.toNat.toUInt8 then failure .lzma (exactly "LZIP") bytes
  else if !settings.all isSettings then .notCompressed .lzma
  else if window.length < 4 then .endsEarly
  else if !isWindow (number window) then .notCompressed .lzma
  else if bytes.length < 13 then .endsEarly
  else .notCompressed .lzma

/-- What reading a text as compressed data gives. -/
def unpack (form : Compression) (text : String) : Except Fault String :=
  let bytes := text.toUTF8.toList
  match form with
  | .gzip => if bytes.isEmpty then .ok "" else .error (.notCompressed .gzip)
  | .bzip2 => .error (bzip2Failure bytes)
  | .lzma => .error (lzmaFailure bytes)

end Compression

end Roster
