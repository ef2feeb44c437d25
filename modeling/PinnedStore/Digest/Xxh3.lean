import PinnedStore.Bytes

/-!
# XXH3 of thirty-two bytes

The 64-bit XXH3 hash with a seed, for inputs of 32 bytes.  At that length the algorithm mixes the
two halves of the input with the first half of its fixed secret, adds the input's length as a
multiple of a prime, and scrambles the sum.
-/

namespace PinnedStore.Xxh3

/-- The first eight bytes as a word, little end first. -/
def word (bytes : Bytes) : UInt64 :=
  (bytes.take 8).foldr (fun byte sum => (sum <<< 8) ||| byte.toUInt64) 0

/-- The product of two words with its high half folded onto its low half. -/
def fold (a b : UInt64) : UInt64 :=
  let product := a.toNat * b.toNat
  product.toUInt64 ^^^ (product / UInt64.size).toUInt64

/-- Mixes sixteen bytes with two words of the secret, one raised and one lowered by the seed. -/
def mix (bytes : Bytes) (low high seed : UInt64) : UInt64 :=
  fold (word bytes ^^^ (low + seed)) (word (bytes.drop 8) ^^^ (high - seed))

/-- The last scrambling. -/
def scramble (sum : UInt64) : UInt64 :=
  let sum := sum ^^^ (sum >>> 37)
  let sum := sum * 0x165667919E3779F9
  sum ^^^ (sum >>> 32)

/-- The hash of 32 bytes. -/
def hash (seed : UInt64) (bytes : Bytes) : UInt64 :=
  scramble (32 * 0x9E3779B185EBCA87
    + mix bytes 0xBE4BA423396CFEB8 0x1CAD21F72C81017C seed
    + mix (bytes.drop 16) 0xDB979083E96DD4DE 0x1F67B3B7A4A44072 seed)

end PinnedStore.Xxh3
