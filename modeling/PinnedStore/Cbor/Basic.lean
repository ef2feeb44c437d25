import PinnedStore.Bytes

/-!
# CBOR items

Nodes and pin set headers are written in CBOR (RFC 8949).  An item starts with a byte that holds its
major type in the high three bits and, in the low five, a number or how many bytes the number takes.

Writing is canonical: every number takes as few bytes as it can, and every length is stated.
Reading is more lenient: any width is taken, arrays and maps may be left open and closed by a break,
and what follows the item is left alone.  A `Reader` returns what it read and the bytes after it.

A reader that meets the wrong type names the type it found.  To name a negative number that has a
number of bytes of its own it looks at the byte after the next, so such a byte too near the end is
reported as the end of the input.
-/

namespace PinnedStore.Cbor

/-- The ways in which bytes fail to be the item that was asked for. -/
inductive Error where
  /-- The bytes end inside the item. -/
  | endOfInput
  /-- The item has another type. -/
  | typeMismatch
  /-- A field that must be there is not. -/
  | missingValue
  /-- The number does not fit its field. -/
  | overflow
  /-- The bytes of a text are not UTF-8. -/
  | utf8
  /-- The item has the right type but is refused, for this reason. -/
  | message (reason : String)
  deriving DecidableEq, Repr

/-- The words for a failure to read. -/
def Error.describe : Error → String
  | .endOfInput => "end of input bytes"
  | .typeMismatch => "unexpected type"
  | .missingValue => "missing value"
  | .overflow => "number out of range"
  | .utf8 => "invalid utf-8"
  | .message reason => s!"decode error: {reason}"

/-! ## Writing -/

/-- The major types in use. -/
inductive Major where
  | unsigned | bytes | text | array | map
  deriving DecidableEq, Repr

/-- The high three bits of an initial byte, in place. -/
def Major.bits : Major → UInt8
  | .unsigned => 0x00
  | .bytes => 0x40
  | .text => 0x60
  | .array => 0x80
  | .map => 0xA0

/-- The lowest `count` bytes of a number, the highest of them first. -/
def bigEndian : (count : Nat) → Nat → Bytes
  | 0, _ => []
  | count + 1, n => (n / Nat.pow 256 count).toUInt8 :: bigEndian count n

@[simp] theorem length_bigEndian (count n : Nat) : (bigEndian count n).length = count := by
  induction count with
  | zero => rfl
  | succ count ih => rw [bigEndian, List.length_cons, ih]

/-- An initial byte and its number, in the fewest bytes. -/
def head (major : Major) (n : Nat) : Bytes :=
  if n < 24 then [major.bits + n.toUInt8]
  else if n < UInt8.size then (major.bits + 24) :: bigEndian 1 n
  else if n < UInt16.size then (major.bits + 25) :: bigEndian 2 n
  else if n < UInt32.size then (major.bits + 26) :: bigEndian 4 n
  else (major.bits + 27) :: bigEndian 8 n

/-- A byte string. -/
def byteString (data : Bytes) : Bytes :=
  head .bytes data.length ++ data

/-- A text. -/
def text (s : String) : Bytes :=
  let data := Bytes.ofText s
  head .text data.length ++ data

/-- An array of items that are written one by one. -/
def array {α : Type} (item : α → Bytes) (items : List α) : Bytes :=
  head .array items.length ++ items.flatMap item

/-! ## Reading -/

/-- Reads something off the front of the bytes. -/
abbrev Reader (α : Type) := Bytes → Except Error (α × Bytes)

/-- The failure on an initial byte of the wrong type, followed by `rest`. -/
def mismatch (initial : UInt8) (rest : Bytes) : Error :=
  if 0x38 ≤ initial ∧ initial ≤ 0x3B ∧ rest.length < 2 then .endOfInput else .typeMismatch

/-- The next `count` bytes. -/
def take (count : Nat) : Reader Bytes := fun bytes =>
  let data := bytes.take count
  if data.length < count then .error .endOfInput else .ok (data, bytes.drop count)

/-- The number made of the next `count` bytes, the highest first. -/
def number (count : Nat) : Reader Nat := fun bytes => do
  let (digits, rest) ← take count bytes
  return (digits.foldl (fun n byte => 256 * n + byte.toNat) 0, rest)

/-- The number that belongs to the low five bits of an initial byte. -/
def argument (info : UInt8) : Reader Nat := fun bytes =>
  if info < 24 then .ok (info.toNat, bytes)
  else if info = 24 then number 1 bytes
  else if info = 25 then number 2 bytes
  else if info = 26 then number 4 bytes
  else if info = 27 then number 8 bytes
  else .error .typeMismatch

/-- The low five bits of an initial byte. -/
def info (initial : UInt8) : UInt8 := initial &&& 0x1F

/-- The high three bits of an initial byte, in place. -/
def major (initial : UInt8) : UInt8 := initial &&& 0xE0

/-- The head of an array or a map: its length, or `none` if it is left open. -/
def openHead (kind : Major) : Reader (Option Nat)
  | [] => .error .endOfInput
  | b :: rest =>
    if major b ≠ kind.bits then .error (mismatch b rest)
    else if info b = 31 then .ok (none, rest)
    else do
      let (n, rest) ← argument (info b) rest
      return (some n, rest)

/-- The content of a string of stated length. -/
def content (kind : Major) : Reader Bytes
  | [] => .error .endOfInput
  | b :: rest =>
    if major b ≠ kind.bits ∨ info b = 31 then .error (mismatch b rest)
    else do
      let (n, rest) ← argument (info b) rest
      take n rest

/-- A byte string. -/
def readBytes : Reader Bytes := content .bytes

/-- A text. -/
def readText : Reader String := fun bytes => do
  let (data, rest) ← content .text bytes
  match Bytes.toText? data with
  | some s => return (s, rest)
  | none => throw .utf8

/-- An unsigned number of at most `most`. -/
def readUnsigned (most : Nat) : Reader Nat
  | [] => .error .endOfInput
  | b :: rest =>
    if b ≤ 0x1B then do
      let (n, rest) ← argument b rest
      if n ≤ most then return (n, rest) else throw .overflow
    else .error (mismatch b rest)

/-- A number of either sign that fits 64 bits. -/
def readSigned : Reader Int
  | [] => .error .endOfInput
  | b :: rest =>
    if b ≤ 0x1B then do
      let (n, rest) ← argument b rest
      if n < 0x8000000000000000 then return ((n : Int), rest) else throw .overflow
    else if 0x20 ≤ b ∧ b ≤ 0x3B then do
      let (n, rest) ← argument (b - 0x20) rest
      if n < 0x8000000000000000 then return (-1 - (n : Int), rest) else throw .overflow
    else .error (mismatch b rest)

/-- The items of an array of `count` items. -/
def readCounted {α : Type} (item : Reader α) : (count : Nat) → Reader (List α)
  | 0, bytes => .ok ([], bytes)
  | count + 1, bytes => do
    let (x, bytes) ← item bytes
    let (xs, bytes) ← readCounted item count bytes
    return (x :: xs, bytes)

/-- The items of an open array up to its break.  Every item takes a byte, so `fuel` of one more than
the bytes there are is enough. -/
def readOpen {α : Type} (item : Reader α) : (fuel : Nat) → Reader (List α)
  | 0, _ => .error .endOfInput
  | _ + 1, [] => .error .endOfInput
  | fuel + 1, b :: rest =>
    if b = 0xFF then .ok ([], rest)
    else do
      let (x, bytes) ← item (b :: rest)
      let (xs, bytes) ← readOpen item fuel bytes
      return (x :: xs, bytes)

/-- An array of items of one kind. -/
def readArray {α : Type} (item : Reader α) : Reader (List α) := fun bytes => do
  match ← openHead .array bytes with
  | (some count, rest) => readCounted item count rest
  | (none, rest) => readOpen item (rest.length + 1) rest

end PinnedStore.Cbor
