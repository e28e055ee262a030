/-
# Png: pictures as PNG files

A PNG file is a signature and a row of chunks, each with its length, its name, its data and a
checksum over the last two. The pixels stand row by row, each row behind a byte that says it is
not filtered, in a deflate stream whose blocks are stored and not compressed.
-/
import Subtitles.Packet
namespace Subtitles.Png

set_option autoImplicit false

/-! ## Checksums -/

/-- One bit of a division by the polynomial of the checksum. -/
def crcShift (c : UInt32) : UInt32 := if c &&& 1 = 1 then (c >>> 1) ^^^ 0xedb88320 else c >>> 1

/-- The remainder of a byte. -/
def crcOfByte (b : Nat) : UInt32 := (List.range 8).foldl (fun c _ => crcShift c) (UInt32.ofNat b)

def crcTable : Array UInt32 := (Array.range 256).map crcOfByte

def crc (data : Bytes) : UInt32 :=
  let step (c : UInt32) (b : UInt8) : UInt32 :=
    crcTable.getD ((c ^^^ b.toUInt32) &&& 0xff).toNat 0 ^^^ (c >>> 8)
  data.foldl step 0xffffffff ^^^ 0xffffffff

/-- Two sums of the bytes modulo a prime, the second one of the first ones. -/
def adler (data : Bytes) : UInt32 :=
  let step (s : UInt32 × UInt32) (b : UInt8) : UInt32 × UInt32 :=
    let low := (s.1 + b.toUInt32) % 65521
    (low, (s.2 + low) % 65521)
  let (low, high) := data.foldl step (1, 0)
  (high <<< 16) ||| low

/-! ## Parts of a file -/

/-- A word, its high byte first. -/
def word (w : UInt32) : Bytes :=
  #[(w >>> 24).toUInt8, (w >>> 16).toUInt8, (w >>> 8).toUInt8, w.toUInt8]

def chunk (name : String) (data : Bytes) : Bytes :=
  let body := name.toUTF8.data ++ data
  word (UInt32.ofNat data.size) ++ body ++ word (crc body)

/-- The most bytes of a stored block. -/
def blockLength : Nat := 65535

/-- A stored block of a deflate stream, with its length and the complement of that. -/
def storedBlock (isLast : Bool) (data : Bytes) : Bytes :=
  let n := UInt16.ofNat data.size
  let bytes (v : UInt16) : Bytes := #[v.toUInt8, (v >>> 8).toUInt8]
  #[if isLast then 1 else 0] ++ bytes n ++ bytes (~~~n) ++ data

/-- Data as a deflate stream with its header and checksum. -/
def stored (data : Bytes) : Bytes :=
  let last := (data.size - 1) / blockLength
  let block (i : Nat) : Bytes :=
    storedBlock (i = last) (data.extract (i * blockLength) ((i + 1) * blockLength))
  (List.range (last + 1)).foldl (fun out i => out ++ block i) #[0x78, 0x01] ++ word (adler data)

/-- The rows of a picture, each behind the mark of an unfiltered one. -/
def rows (width height : Nat) (pixels : Bytes) : Bytes :=
  (List.range height).foldl
    (fun out y => out.push 0 ++ pixels.extract (y * (4 * width)) ((y + 1) * (4 * width))) #[]

def signature : Bytes := #[0x89, 0x50, 0x4e, 0x47, 0x0d, 0x0a, 0x1a, 0x0a]

/-- A picture with four bytes a pixel: red, green, blue, alpha. -/
def encode (width height : UInt32) (pixels : Bytes) : Bytes :=
  let header := word width ++ word height ++ #[8, 6, 0, 0, 0]
  signature ++ chunk "IHDR" header ++
    chunk "IDAT" (stored (rows width.toNat height.toNat pixels)) ++ chunk "IEND" #[]

end Subtitles.Png
