import PinnedStore.Bytes

/-!
# Bit-packed text

Bytes written as symbols of a few bits each.  The bits of the bytes, the highest of each byte first,
are cut into groups of the alphabet's width, the last one filled up with zeros, and every group is
written as one symbol.  Reading undoes this and hands back the bits that are left over, so that a
format can say whether they have to be zero.

* `Alphabet`: the width of a symbol and the symbols in the order of their values.
* `base64Url`, `crockford32`: the two alphabets in use.
* `encode`, `decode?`: writing, and reading with the left-over bits.
-/

namespace PinnedStore.Packed

/-- The symbols of a bit-packed text. -/
structure Alphabet where
  /-- The number of bits in a symbol. -/
  width : Nat
  /-- The symbols, in the order of their values. -/
  symbols : List Char

/-- The URL-safe alphabet of base 64. -/
def base64Url : Alphabet :=
  ⟨6, "ABCDEFGHIJKLMNOPQRSTUVWXYZabcdefghijklmnopqrstuvwxyz0123456789-_".toList⟩

/-- The alphabet of base 32 without the letters that look like others, in lower case. -/
def crockford32 : Alphabet :=
  ⟨5, "0123456789abcdefghjkmnpqrstvwxyz".toList⟩

/-- The lowest `width` bits of a value, the highest of them first. -/
def bitsOf : (width : Nat) → (value : Nat) → List Bool
  | 0, _ => []
  | width + 1, value => (value / Nat.pow 2 width % 2 == 1) :: bitsOf width value

/-- The value of bits, the highest first. -/
def valueOf (bits : List Bool) : Nat :=
  bits.foldl (fun value bit => 2 * value + bit.toNat) 0

/-- Cuts bits into at most `count` groups of `width`, filling up the last one with zeros. -/
def groups (width : Nat) : (count : Nat) → List Bool → List (List Bool)
  | 0, _ => []
  | count + 1, bits =>
    if bits.isEmpty then []
    else
      let group := bits.take width
      (group ++ List.replicate (width - group.length) false) :: groups width count (bits.drop width)

/-- The bits of bytes. -/
def bitsOfBytes (bytes : Bytes) : List Bool :=
  bytes.flatMap fun byte => bitsOf 8 byte.toNat

/-- Writes bytes in an alphabet. -/
def encode (alphabet : Alphabet) (bytes : Bytes) : List Char :=
  let bits := bitsOfBytes bytes
  (groups alphabet.width bits.length bits).map fun group =>
    alphabet.symbols.getD (valueOf group) ' '

/-- The bits of the symbols, if all of them belong to the alphabet. -/
def bitsOfSymbols? (alphabet : Alphabet) : List Char → Option (List Bool)
  | [] => some []
  | c :: rest => do
    let value ← alphabet.symbols.idxOf? c
    let bits ← bitsOfSymbols? alphabet rest
    return bitsOf alphabet.width value ++ bits

/-- The bytes of bits, and the last bits if they do not fill a byte. -/
def bytesOfBits : List Bool → Bytes × List Bool
  | b7 :: b6 :: b5 :: b4 :: b3 :: b2 :: b1 :: b0 :: rest =>
    let (bytes, left) := bytesOfBits rest
    ((valueOf [b7, b6, b5, b4, b3, b2, b1, b0]).toUInt8 :: bytes, left)
  | left => ([], left)

/-- Reads symbols of an alphabet: the bytes and the bits left over.  Left-over bits that would fill
a symbol of their own make the text unreadable, since no byte string is written that way. -/
def decode? (alphabet : Alphabet) (symbols : List Char) : Option (Bytes × List Bool) := do
  let bits ← bitsOfSymbols? alphabet symbols
  let (bytes, left) := bytesOfBits bits
  if left.length < alphabet.width then return (bytes, left) else none

end PinnedStore.Packed
