/-!
The gzip form of data. The data is stored in blocks as it is, which every reader accepts.
-/

namespace TrapFacts.Gzip

/-- A number in so many bytes, the lowest first. -/
def littleEndian : (width value : Nat) → List UInt8
  | 0, _ => []
  | width + 1, value => (value % 256).toUInt8 :: littleEndian width (value / 256)

/-- One bit out of the remainder. -/
def shift (c : UInt32) : UInt32 :=
  if c &&& 1 = 1 then (c >>> 1) ^^^ 0xEDB88320 else c >>> 1

/-- One byte more in the checksum. -/
def checksumByte (c : UInt32) (b : UInt8) : UInt32 :=
  (shift ∘ shift ∘ shift ∘ shift ∘ shift ∘ shift ∘ shift ∘ shift) (c ^^^ b.toUInt32)

/-- The cyclic redundancy check of the data. -/
def checksum (data : ByteArray) : UInt32 :=
  data.foldl checksumByte 0xFFFFFFFF ^^^ 0xFFFFFFFF

/-- How many bytes a block can hold. -/
def blockSize : Nat :=
  65535

/-- A block of stored data, and whether it is the last one. -/
def block (last : Bool) (data : ByteArray) : ByteArray :=
  ⟨(((if last then 1 else 0) :: littleEndian 2 data.size)
    ++ littleEndian 2 (blockSize - data.size)).toArray⟩ ++ data

/-- The data in blocks, given how many full ones come before the last. -/
def blocks : (full : Nat) → ByteArray → ByteArray
  | 0, data => block true data
  | full + 1, data =>
    block false (data.extract 0 blockSize) ++ blocks full (data.extract blockSize data.size)

def header : ByteArray :=
  ⟨#[0x1F, 0x8B, 8, 0, 0, 0, 0, 0, 0, 0xFF]⟩

/-- A file with the data in it. -/
def pack (data : ByteArray) : ByteArray :=
  header ++ blocks (data.size / blockSize) data
    ++ ⟨(littleEndian 4 (checksum data).toNat ++ littleEndian 4 data.size).toArray⟩

end TrapFacts.Gzip
