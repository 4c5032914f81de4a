import Roster.Figure.Raster

/-!
# Portable Network Graphics

The bytes of a picture file: a signature, and three chunks for the header, the pixels
and the end. A chunk carries its length and a check value. The pixels go row by row
without compression, in blocks that a reader of compressed data takes as they are.

## Main definitions

* `Png.crc`: The check value of a chunk.
* `Png.adler`: The check value of the pixels.
* `Png.encode`: The bytes of a picture.
-/

namespace Roster

namespace Png

/-- A number in four bytes, the most significant first. -/
def bigEndian (n : Nat) : List UInt8 :=
  [(n / Nat.pow 2 24).toUInt8, (n / Nat.pow 2 16).toUInt8, (n / Nat.pow 2 8).toUInt8, n.toUInt8]

/-- A number in two bytes, the least significant first. -/
def littleEndian (n : Nat) : List UInt8 := [n.toUInt8, (n / Nat.pow 2 8).toUInt8]

/-- One division step of the check value: a shift, and the divisor where a bit fell out. -/
def crcBit (c : UInt32) : UInt32 := if c &&& 1 == 1 then (c >>> 1) ^^^ 0xedb88320 else c >>> 1

/-- The check value after one more byte. -/
def crcByte (c : UInt32) (b : UInt8) : UInt32 :=
  crcBit (crcBit (crcBit (crcBit (crcBit (crcBit (crcBit (crcBit (c ^^^ b.toUInt32))))))))

/-- The check value of a chunk. -/
def crc (bytes : List UInt8) : UInt32 := bytes.foldl crcByte 0xffffffff ^^^ 0xffffffff

/-- The modulus of the check value of the pixels. -/
def adlerModulus : Nat := 65521

/-- The check value of the pixels: the sum of the bytes, and the sum of these sums. -/
def adler (bytes : List UInt8) : Nat :=
  let (a, b) := bytes.foldl
    (fun (a, b) byte =>
      let a := (a + byte.toNat) % adlerModulus
      (a, (b + a) % adlerModulus))
    (1, 0)
  b * Nat.pow 2 16 + a

/-- The largest block of uncompressed data. -/
def blockLimit : Nat := 65535

/-- Data in uncompressed blocks, of which the last is marked; at most `fuel` of them before
    the last. -/
def blocks : Nat → List UInt8 → List UInt8
  | 0, bytes => 1 :: sized bytes
  | fuel + 1, bytes =>
    if bytes.length ≤ blockLimit then 1 :: sized bytes
    else 0 :: sized (bytes.take blockLimit) ++ blocks fuel (bytes.drop blockLimit)
where
  /-- A block behind its length, which is written twice, once inverted. -/
  sized (bytes : List UInt8) : List UInt8 :=
    littleEndian bytes.length ++ littleEndian (blockLimit - bytes.length) ++ bytes

/-- Data as a compressed stream without compression. -/
def stream (bytes : List UInt8) : List UInt8 :=
  [0x78, 0x01] ++ blocks (bytes.length / blockLimit) bytes ++ bigEndian (adler bytes)

/-- A chunk of a kind that four letters name. -/
def chunk (kind : String) (content : List UInt8) : List UInt8 :=
  let body := (kind.toList.map fun c => c.toNat.toUInt8) ++ content
  bigEndian content.length ++ body ++ bigEndian (crc body).toNat

/-- The bytes every such file starts with. -/
def signature : List UInt8 := [137, 80, 78, 71, 13, 10, 26, 10]

/-- The size, and that a pixel is three bytes without a palette. -/
def header (width height : Nat) : List UInt8 :=
  bigEndian width ++ bigEndian height ++ [8, 2, 0, 0, 0]

/-- The pixels, each row behind a zero for "not filtered". -/
def scanlines (raster : Raster) : List UInt8 :=
  (List.range raster.height).flatMap fun row =>
    0 :: (List.range raster.width).flatMap fun column =>
      let colour := raster.pixel row column
      [colour.red, colour.green, colour.blue]

/-- The bytes of a picture. -/
def encode (raster : Raster) : List UInt8 :=
  signature ++ chunk "IHDR" (header raster.width raster.height) ++
    chunk "IDAT" (stream (scanlines raster)) ++ chunk "IEND" []

end Png

end Roster
