import Roster.Fault

/-!
# Addresses

An address is a scheme, a host behind two slashes, and a path; a query and a fragment
behind it are no part of the path, and in most schemes neither are the parameters of its
last name. Every path is an address, mostly without a scheme and a host.

A host may be the number of a machine in brackets, in groups of four hexadecimal digits
or in a form yet to come. Brackets around anything else are refused, and so is a
character that stands for a mark of an address in another width or form.

## Main definitions

* `Address`: A scheme, a host and a path.
* `Address.isNumber`: Whether a text is the number of a machine.
* `Address.ofChars`: The address that some characters spell.
-/

namespace Roster

/-- A scheme, a host and a path. -/
structure Address where
  scheme : String
  host : List Char
  path : List Char

namespace Address

/-! ## Hosts -/

/-- Whether some characters are a decimal number below 256 without idle zeros. -/
def isOctet (cs : List Char) : Bool :=
  cs.all Char.isDigit && 0 < cs.length && cs.length ≤ 3 && decide (Decimal.ofDigits cs < 256) &&
    (cs == ['0'] || cs.head? != some '0')

/-- The parts of a text between marks. -/
def parts (mark : String) (cs : List Char) : List (List Char) :=
  ((String.ofList cs).splitOn mark).map String.toList

/-- Whether some characters are four decimal numbers between points. -/
def isShortNumber (cs : List Char) : Bool :=
  let octets := parts "." cs
  octets.length == 4 && octets.all isOctet

/-- Whether a character is a hexadecimal digit. -/
def isHexadecimal (c : Char) : Bool :=
  c.isDigit || ('a' ≤ c && c ≤ 'f') || ('A' ≤ c && c ≤ 'F')

/-- Whether some characters are one to four hexadecimal digits. -/
def isGroup (cs : List Char) : Bool := 0 < cs.length && cs.length ≤ 4 && cs.all isHexadecimal

/-- Groups with the last, if it is a short number, as two groups. -/
def widen (groups : List (List Char)) : Option (List (List Char)) :=
  let last := groups.getLastD []
  if !last.contains '.' then some groups
  else if isShortNumber last then some (groups.dropLast ++ [['0'], ['0']])
  else none

/-- Groups on one side of a gap, where an empty one may stand for no group at all. -/
def besideGap (groups : List (List Char)) : List (List Char) :=
  if groups == [[]] then [] else groups

/-- Whether groups are eight, or fewer around one gap. -/
def fillNumber (groups : List (List Char)) : Bool :=
  let inner := groups.drop 1 |>.dropLast
  match (inner.filter List.isEmpty).length with
  | 0 => groups.length == 8 && groups.all isGroup
  | 1 =>
    let before := 1 + (inner.takeWhile fun group => !group.isEmpty).length
    let known := besideGap (groups.take before) ++ besideGap (groups.drop (before + 1))
    known.length ≤ 7 && known.all isGroup
  | _ => false

/-- Whether some characters are a number in groups, perhaps with a zone behind it. -/
def isLongNumber (cs : List Char) : Bool :=
  let groups := parts ":" (cs.takeWhile (· != '%'))
  let zone := cs.dropWhile (· != '%')
  (zone.isEmpty || (1 < zone.length && !(zone.drop 1).contains '%')) &&
    3 ≤ groups.length && (widen groups).any fun groups => groups.length ≤ 9 && fillNumber groups

/-- Whether some characters are a number in a form yet to come: a version and a point before
    anything at all. -/
def isFutureNumber (cs : List Char) : Bool :=
  let version := (cs.drop 1).takeWhile isHexadecimal
  match cs.drop (version.length + 1) with
  | '.' :: _ :: _ => !version.isEmpty
  | _ => false

/-- What is wrong with a text in brackets, if anything. -/
def numberFault? (cs : List Char) : Option AddressFault :=
  if cs.head? == some 'v' then if isFutureNumber cs then none else some .futureNumber
  else if isShortNumber cs then some .shortNumber
  else if isLongNumber cs then none
  else some (.notANumber (String.ofList cs))

/-- What stands behind the last of some marks, or all if there is none. -/
def behindLast (mark : Char) (cs : List Char) : List Char :=
  (cs.reverse.takeWhile (· != mark)).reverse

/-- What is wrong with the brackets in a host, if anything. They stand around all of it but
    for a port. -/
def bracketFault? (host : List Char) : Option AddressFault :=
  if host.contains '[' != host.contains ']' then some .brackets
  else if !host.contains '[' then none
  else
    let name := behindLast '@' host
    if !name.contains '[' then numberFault? (name.takeWhile (· != ':'))
    else
      let inner := (name.drop 1).takeWhile (· != ']')
      let behind := name.drop (inner.length + 2)
      if name.head? != some '[' || !(behind.isEmpty || behind.head? == some ':') then
        some .brackets
      else numberFault? inner

/-- The characters that stand for marks of an address in another width or form. -/
def disguises : List Nat :=
  [0x2047, 0x2048, 0x2049, 0x2100, 0x2101, 0x2105, 0x2106, 0x2A74, 0xFE13, 0xFE16, 0xFE55,
    0xFE56, 0xFE5F, 0xFE6B, 0xFF03, 0xFF0F, 0xFF1A, 0xFF1F, 0xFF20]

/-- What is wrong with a host, if anything. -/
def hostFault? (host : List Char) : Option AddressFault :=
  (bracketFault? host).orElse fun _ =>
    if host.any fun c => disguises.contains c.toNat then some (.disguise (String.ofList host))
    else none

/-! ## Addresses -/

/-- Whether a character may stand in a scheme. -/
def isSchemeChar (c : Char) : Bool := c.isAlphanum || c == '+' || c == '-' || c == '.'

/-- The scheme in front of an address, in small letters, and what follows it. -/
def spanScheme (cs : List Char) : String × List Char :=
  let scheme := cs.takeWhile (· != ':')
  if scheme.length < cs.length && (scheme.head?.any Char.isAlpha) && scheme.all isSchemeChar then
    (String.ofList (scheme.map Char.toLower), cs.drop (scheme.length + 1))
  else ("", cs)

/-- The host behind two slashes, and what follows it. -/
def spanHost (cs : List Char) : List Char × List Char :=
  match cs with
  | '/' :: '/' :: rest =>
    let isName (c : Char) : Bool := c != '/' && c != '?' && c != '#'
    (rest.takeWhile isName, rest.dropWhile isName)
  | cs => ([], cs)

/-- A path without the parameters of its last name. -/
def dropParameters (cs : List Char) : List Char :=
  let name := behindLast '/' cs
  cs.take (cs.length - name.length) ++ name.takeWhile (· != ';')

/-- The schemes in which a path can have parameters. -/
def parameterSchemes : List String :=
  ["", "ftp", "hdl", "prospero", "http", "imap", "https", "shttp", "rtsp", "rtsps", "rtspu", "sip",
    "sips", "mms", "sftp", "tel"]

/-- The address that some characters spell. Controls and blanks before it mean nothing, and
    neither do tabs and line breaks in it. -/
def ofChars (cs : List Char) : Except AddressFault Address :=
  let cs := (cs.dropWhile fun c => c.toNat ≤ 32).filter fun c =>
    c != '\t' && c != '\n' && c != '\r'
  let (scheme, cs) := spanScheme cs
  let (host, cs) := spanHost cs
  match hostFault? host with
  | some fault => .error fault
  | none =>
    let path := cs.takeWhile fun c => c != '#' && c != '?'
    .ok {
      scheme := scheme
      host := host
      path := if parameterSchemes.contains scheme then dropParameters path else path }

end Address

end Roster
