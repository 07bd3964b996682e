import EntitySchema.Text.Basic

/-!
The 64-bit XXH3 hash with seed zero and the default secret, as its specification defines it: four
ways for short inputs by length, and striped accumulation for inputs beyond 240 bytes.
-/

namespace EntitySchema.Hash

def prime32First : UInt64 := 0x9E3779B1

def prime32Second : UInt64 := 0x85EBCA77

def prime32Third : UInt64 := 0xC2B2AE3D

def prime64First : UInt64 := 0x9E3779B185EBCA87

def prime64Second : UInt64 := 0xC2B2AE3D27D4EB4F

def prime64Third : UInt64 := 0x165667B19E3779F9

def prime64Fourth : UInt64 := 0x85EBCA77C2B2AE63

def prime64Fifth : UInt64 := 0x27D4EB2F165667C5

def mixPrimeFirst : UInt64 := 0x165667919E3779F9

def mixPrimeSecond : UInt64 := 0x9FB21C651E98DF25

/-- The 192 bytes that inputs are mixed with. -/
def secret : Array Byte := #[
  0xb8, 0xfe, 0x6c, 0x39, 0x23, 0xa4, 0x4b, 0xbe, 0x7c, 0x01, 0x81, 0x2c, 0xf7, 0x21, 0xad, 0x1c,
  0xde, 0xd4, 0x6d, 0xe9, 0x83, 0x90, 0x97, 0xdb, 0x72, 0x40, 0xa4, 0xa4, 0xb7, 0xb3, 0x67, 0x1f,
  0xcb, 0x79, 0xe6, 0x4e, 0xcc, 0xc0, 0xe5, 0x78, 0x82, 0x5a, 0xd0, 0x7d, 0xcc, 0xff, 0x72, 0x21,
  0xb8, 0x08, 0x46, 0x74, 0xf7, 0x43, 0x24, 0x8e, 0xe0, 0x35, 0x90, 0xe6, 0x81, 0x3a, 0x26, 0x4c,
  0x3c, 0x28, 0x52, 0xbb, 0x91, 0xc3, 0x00, 0xcb, 0x88, 0xd0, 0x65, 0x8b, 0x1b, 0x53, 0x2e, 0xa3,
  0x71, 0x64, 0x48, 0x97, 0xa2, 0x0d, 0xf9, 0x4e, 0x38, 0x19, 0xef, 0x46, 0xa9, 0xde, 0xac, 0xd8,
  0xa8, 0xfa, 0x76, 0x3f, 0xe3, 0x9c, 0x34, 0x3f, 0xf9, 0xdc, 0xbb, 0xc7, 0xc7, 0x0b, 0x4f, 0x1d,
  0x8a, 0x51, 0xe0, 0x4b, 0xcd, 0xb4, 0x59, 0x31, 0xc8, 0x9f, 0x7e, 0xc9, 0xd9, 0x78, 0x73, 0x64,
  0xea, 0xc5, 0xac, 0x83, 0x34, 0xd3, 0xeb, 0xc3, 0xc5, 0x81, 0xa0, 0xff, 0xfa, 0x13, 0x63, 0xeb,
  0x17, 0x0d, 0xdd, 0x51, 0xb7, 0xf0, 0xda, 0x49, 0xd3, 0x16, 0x55, 0x26, 0x29, 0xd4, 0x68, 0x9e,
  0x2b, 0x16, 0xbe, 0x58, 0x7d, 0x47, 0xa1, 0xfc, 0x8f, 0xf8, 0xb8, 0xd1, 0x7a, 0xd0, 0x31, 0xce,
  0x45, 0xcb, 0x3a, 0x8f, 0x95, 0x16, 0x04, 0x28, 0xaf, 0xd7, 0xfb, 0xca, 0xbb, 0x4b, 0x40, 0x7e]

def byteAt (data : Array Byte) (offset : Nat) : UInt64 := (data.getD offset 0).toUInt64

def wordAt (data : Array Byte) (offset : Nat) : (count : Nat) → UInt64
  | 0 => 0
  | count + 1 => byteAt data offset ||| (wordAt data (offset + 1) count <<< 8)

def read32 (data : Array Byte) (offset : Nat) : UInt64 := wordAt data offset 4

def read64 (data : Array Byte) (offset : Nat) : UInt64 := wordAt data offset 8

def swapBytes (width : Nat) (word : UInt64) : UInt64 :=
  match width with
  | 0 => 0
  | width + 1 => ((word &&& 0xFF) <<< (8 * width).toUInt64) ||| swapBytes width (word >>> 8)

def rotateLeft (word : UInt64) (count : UInt64) : UInt64 :=
  (word <<< count) ||| (word >>> (64 - count))

def xorShift (word : UInt64) (count : UInt64) : UInt64 := word ^^^ (word >>> count)

def multiplyFold (left right : UInt64) : UInt64 :=
  let product := left.toNat * right.toNat
  (product % UInt64.size).toUInt64 ^^^ (product / UInt64.size).toUInt64

def avalanche (word : UInt64) : UInt64 :=
  xorShift (xorShift word 37 * mixPrimeFirst) 32

def strongAvalanche (word : UInt64) : UInt64 :=
  let word := xorShift word 33 * prime64Second
  let word := xorShift word 29 * prime64Third
  xorShift word 32

def hashEmpty : UInt64 := strongAvalanche (read64 secret 56 ^^^ read64 secret 64)

def hashUpTo3 (data : Array Byte) : UInt64 :=
  let size := data.size
  let combined := (byteAt data 0 <<< 16) ||| (byteAt data (size / 2) <<< 24) |||
    byteAt data (size - 1) ||| (size.toUInt64 <<< 8)
  strongAvalanche (combined ^^^ (read32 secret 0 ^^^ read32 secret 4))

def hashUpTo8 (data : Array Byte) : UInt64 :=
  let size := data.size
  let first := read32 data 0
  let last := read32 data (size - 4)
  let keyed := (last + (first <<< 32)) ^^^ (read64 secret 8 ^^^ read64 secret 16)
  let word := keyed ^^^ rotateLeft keyed 49 ^^^ rotateLeft keyed 24
  let word := word * mixPrimeSecond
  let word := word ^^^ ((word >>> 35) + size.toUInt64)
  xorShift (word * mixPrimeSecond) 28

def hashUpTo16 (data : Array Byte) : UInt64 :=
  let size := data.size
  let low := read64 data 0 ^^^ (read64 secret 24 ^^^ read64 secret 32)
  let high := read64 data (size - 8) ^^^ (read64 secret 40 ^^^ read64 secret 48)
  avalanche (size.toUInt64 + swapBytes 8 low + high + multiplyFold low high)

def mix16 (data : Array Byte) (offset secretOffset : Nat) : UInt64 :=
  multiplyFold (read64 data offset ^^^ read64 secret secretOffset)
    (read64 data (offset + 8) ^^^ read64 secret (secretOffset + 8))

def hashUpTo128 (data : Array Byte) : UInt64 :=
  let size := data.size
  let pairs := (size - 1) / 32 + 1
  let start := size.toUInt64 * prime64First
  avalanche <| (List.range pairs).foldl (fun word pair =>
    word + mix16 data (16 * pair) (32 * pair) +
      mix16 data (size - 16 * (pair + 1)) (32 * pair + 16)) start

def hashUpTo240 (data : Array Byte) : UInt64 :=
  let size := data.size
  let start := size.toUInt64 * prime64First
  let head := avalanche <| (List.range 8).foldl (fun word block =>
    word + mix16 data (16 * block) (16 * block)) start
  let tail := (List.range (size / 16 - 8)).foldl (fun word block =>
    word + mix16 data (16 * (block + 8)) (16 * block + 3)) head
  avalanche (tail + mix16 data (size - 16) 119)

abbrev Lanes := List UInt64

def startLanes : Lanes :=
  [prime32Third, prime64First, prime64Second, prime64Third, prime64Fourth, prime32Second,
    prime64Fifth, prime32First]

def laneInput (data : Array Byte) (offset lane : Nat) : UInt64 := read64 data (offset + 8 * lane)

def addStripe (data : Array Byte) (offset secretOffset : Nat) (lanes : Lanes) : Lanes :=
  lanes.zipIdx.map fun (sum, lane) =>
    let keyed := laneInput data offset lane ^^^ read64 secret (secretOffset + 8 * lane)
    let neighbour := laneInput data offset (if lane % 2 = 0 then lane + 1 else lane - 1)
    sum + neighbour + (keyed &&& (0xFFFFFFFF : UInt64)) * (keyed >>> 32)

def scramble (lanes : Lanes) : Lanes :=
  lanes.zipIdx.map fun (sum, lane) =>
    (xorShift sum 47 ^^^ read64 secret (128 + 8 * lane)) * prime32First

/-- Stripes in a block: the secret moves on by eight bytes for each of them. -/
def stripesPerBlock : Nat := 16

def addBlock (data : Array Byte) (block stripes : Nat) (lanes : Lanes) : Lanes :=
  (List.range stripes).foldl (fun lanes stripe =>
    addStripe data (1024 * block + 64 * stripe) (8 * stripe) lanes) lanes

def mergeLanes (lanes : Lanes) (secretOffset : Nat) (start : UInt64) : UInt64 :=
  avalanche <| (List.range 4).foldl (fun word pair =>
    word + multiplyFold (lanes.getD (2 * pair) 0 ^^^ read64 secret (secretOffset + 16 * pair))
      (lanes.getD (2 * pair + 1) 0 ^^^ read64 secret (secretOffset + 16 * pair + 8))) start

def hashLong (data : Array Byte) : UInt64 :=
  let size := data.size
  let blocks := (size - 1) / 1024
  let lanes := (List.range blocks).foldl (fun lanes block =>
    scramble (addBlock data block stripesPerBlock lanes)) startLanes
  let lanes := addBlock data blocks ((size - 1 - 1024 * blocks) / 64) lanes
  let lanes := addStripe data (size - 64) 121 lanes
  mergeLanes lanes 11 (size.toUInt64 * prime64First)

def hash (text : Text) : UInt64 :=
  let data := text.toArray
  if data.size = 0 then hashEmpty
  else if data.size ≤ 3 then hashUpTo3 data
  else if data.size ≤ 8 then hashUpTo8 data
  else if data.size ≤ 16 then hashUpTo16 data
  else if data.size ≤ 128 then hashUpTo128 data
  else if data.size ≤ 240 then hashUpTo240 data
  else hashLong data

end EntitySchema.Hash
