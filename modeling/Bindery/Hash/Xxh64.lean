/-!
# The 64-bit xxHash function

A message is a list of bytes.  Messages of 32 bytes and more first run through
four lanes, one stripe of four little-endian words at a time; what is left is
mixed in by words, then by at most one half word, then by single bytes.
-/

namespace Bindery.Hash.Xxh64

/-- The first prime, a factor of every mixing step. -/
def prime1 : UInt64 := 0x9E3779B185EBCA87

/-- The second prime, the factor of an input word. -/
def prime2 : UInt64 := 0xC2B2AE3D27D4EB4F

/-- The third prime, added after a half word. -/
def prime3 : UInt64 := 0x165667B19E3779F9

/-- The fourth prime, added after a word. -/
def prime4 : UInt64 := 0x85EBCA77C2B2AE63

/-- The fifth prime, the factor of a single byte. -/
def prime5 : UInt64 := 0x27D4EB2F165667C5

/-- Rotate a word to the left by fewer than 64 places. -/
def rotate (word places : UInt64) : UInt64 :=
  (word <<< places) ||| (word >>> (64 - places))

/-- The little-endian number that the bytes spell. -/
def littleEndian (bytes : List UInt8) : UInt64 :=
  bytes.foldr (fun byte rest => (rest <<< 8) ||| byte.toUInt64) 0

/-- Mix one input word into an accumulator. -/
def round (acc input : UInt64) : UInt64 :=
  rotate (acc + input * prime2) 31 * prime1

/-- The four accumulators of a long message. -/
structure Lanes where
  first : UInt64
  second : UInt64
  third : UInt64
  fourth : UInt64

namespace Lanes

/-- The lanes before any stripe. -/
def start (seed : UInt64) : Lanes where
  first := seed + prime1 + prime2
  second := seed + prime2
  third := seed
  fourth := seed - prime1

/-- Mix the 32 leading bytes into the lanes, one word into each. -/
def stripe (lanes : Lanes) (bytes : List UInt8) : Lanes where
  first := round lanes.first (littleEndian (bytes.take 8))
  second := round lanes.second (littleEndian ((bytes.drop 8).take 8))
  third := round lanes.third (littleEndian ((bytes.drop 16).take 8))
  fourth := round lanes.fourth (littleEndian ((bytes.drop 24).take 8))

/-- Mix in the given number of stripes. -/
def stripes (lanes : Lanes) : Nat → List UInt8 → Lanes
  | 0, _ => lanes
  | count + 1, bytes => (lanes.stripe bytes).stripes count (bytes.drop 32)

/-- Fold the lanes into one word. -/
def merge (lanes : Lanes) : UInt64 :=
  let sum := rotate lanes.first 1 + rotate lanes.second 7 + rotate lanes.third 12 +
    rotate lanes.fourth 18
  [lanes.first, lanes.second, lanes.third, lanes.fourth].foldl
    (fun acc lane => (acc ^^^ round 0 lane) * prime1 + prime4) sum

end Lanes

/-- Mix in the given number of whole words. -/
def mixWords (acc : UInt64) : Nat → List UInt8 → UInt64
  | 0, _ => acc
  | count + 1, bytes =>
      mixWords (rotate (acc ^^^ round 0 (littleEndian (bytes.take 8))) 27 * prime1 + prime4)
        count (bytes.drop 8)

/-- Mix in one half word of four bytes. -/
def mixHalf (acc : UInt64) (bytes : List UInt8) : UInt64 :=
  rotate (acc ^^^ (littleEndian (bytes.take 4) * prime1)) 23 * prime2 + prime3

/-- Mix in one byte. -/
def mixByte (acc : UInt64) (byte : UInt8) : UInt64 :=
  rotate (acc ^^^ (byte.toUInt64 * prime5)) 11 * prime1

/-- Mix in the fewer than 32 bytes that no stripe has taken. -/
def mixTail (acc : UInt64) (bytes : List UInt8) : UInt64 :=
  let words := bytes.length / 8
  let acc := mixWords acc words bytes
  let bytes := bytes.drop (8 * words)
  if 4 ≤ bytes.length then (bytes.drop 4).foldl mixByte (mixHalf acc bytes)
  else bytes.foldl mixByte acc

/-- Let every bit of the accumulator reach every bit of the digest. -/
def avalanche (acc : UInt64) : UInt64 :=
  let acc := (acc ^^^ (acc >>> 33)) * prime2
  let acc := (acc ^^^ (acc >>> 29)) * prime3
  acc ^^^ (acc >>> 32)

/-- The digest of a message. -/
def digest (seed : UInt64) (bytes : List UInt8) : UInt64 :=
  let stripes := bytes.length / 32
  let acc :=
    if stripes = 0 then seed + prime5 else ((Lanes.start seed).stripes stripes bytes).merge
  avalanche (mixTail (acc + bytes.length.toUInt64) (bytes.drop (32 * stripes)))

end Bindery.Hash.Xxh64
