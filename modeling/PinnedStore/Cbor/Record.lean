import PinnedStore.Cbor.Skip

/-!
# Records

A record of fixed fields is written as an array, one item for each field.  A reader takes the fields
it knows, passes over items after them, and misses the fields that are not there.

* `readPair`: a record of two fields.
* `readEntries`: the entries of a map, handed one by one to a reader that knows some of the keys.
-/

namespace PinnedStore.Cbor

/-- Passes over `count` items. -/
def skipMany : (count : Nat) → Reader Unit
  | 0, bytes => .ok ((), bytes)
  | count + 1, bytes => do
    let ((), bytes) ← skip bytes
    skipMany count bytes

/-- Passes over items up to a break. -/
def skipOpen (bytes : Bytes) : Except Error (Unit × Bytes) :=
  skipParts skip (bytes.length + 1) bytes

/-- Whether the next byte is a break. -/
def atBreak (bytes : Bytes) : Bool :=
  bytes.head? == some 0xFF

/-- A record of two fields. -/
def readPair {α β : Type} (first : Reader α) (second : Reader β) : Reader (α × β) := fun bytes => do
  match ← openHead .array bytes with
  | (some count, rest) =>
    if count = 0 then throw .missingValue
    let (a, rest) ← first rest
    if count = 1 then throw .missingValue
    let (b, rest) ← second rest
    let ((), rest) ← skipMany (count - 2) rest
    return ((a, b), rest)
  | (none, rest) =>
    if atBreak rest then throw .missingValue
    let (a, rest) ← first rest
    if atBreak rest then throw .missingValue
    let (b, rest) ← second rest
    let ((), rest) ← skipOpen rest
    return ((a, b), rest)

/-- Reads `count` entries of a map, each a key and what `value` makes of it. -/
def readEntriesCounted {α : Type} (value : Int → α → Reader α) : (count : Nat) → α → Reader α
  | 0, a, bytes => .ok (a, bytes)
  | count + 1, a, bytes => do
    let (key, bytes) ← readSigned bytes
    let (a, bytes) ← value key a bytes
    readEntriesCounted value count a bytes

/-- Reads the entries of an open map up to its break. -/
def readEntriesOpen {α : Type} (value : Int → α → Reader α) : (fuel : Nat) → α → Reader α
  | 0, _, _ => .error .endOfInput
  | _ + 1, _, [] => .error .endOfInput
  | fuel + 1, a, b :: rest =>
    if b = 0xFF then .ok (a, rest)
    else do
      let (key, bytes) ← readSigned (b :: rest)
      let (a, bytes) ← value key a bytes
      readEntriesOpen value fuel a bytes

/-- Reads a map with numbers for keys, starting from `a`. -/
def readEntries {α : Type} (value : Int → α → Reader α) (a : α) : Reader α := fun bytes => do
  match ← openHead .map bytes with
  | (some count, rest) => readEntriesCounted value count a rest
  | (none, rest) => readEntriesOpen value (rest.length + 1) a rest

end PinnedStore.Cbor
