import PinnedStore.Digest.Basic
import PinnedStore.Text.Packed

/-!
# Block paths

Where a block lies inside a store is decided by its digest alone.  The name is the bit-packed
digest, in base 64 where the store tells letter cases apart and in base 32 where it does not; a
store that likes small directories gets the first pairs of symbols as directories of their own.

Reading a path goes the other way and is lenient about separators: once the leading `block3/` is
gone, they do not matter, so a path is recognised however a platform writes it.

* `write`, `name`: the path of a digest and its part after the common directory.
* `read`: the digest a path belongs to, if any.  A name that is no base 64 is a fault of the store.
-/

namespace PinnedStore

/-- What a store says about itself, as far as paths depend on it. -/
structure Features where
  /-- Whether paths that differ only in the case of letters are different paths. -/
  caseSensitive : Bool
  /-- How many entries a directory should have at most. -/
  directorySize : Nat
  deriving DecidableEq, Repr

namespace BlockPath

/-- The directory of all blocks, with the separator after it. -/
def top : List Char := "block3/".toList

/-- Whether directories should stay small enough to be split by the first symbols of a name. -/
def splits (features : Features) : Bool :=
  features.directorySize < 10000

/-- The symbols of a digest. -/
def symbols (features : Features) (d : Digest) : List Char :=
  if features.caseSensitive then Packed.encode Packed.base64Url d.bytes
  else Packed.encode Packed.crockford32 d.bytes

/-- Puts a separator after the first two symbols, `levels` times over. -/
def fanOut : (levels : Nat) → List Char → List Char
  | 0, chars => chars
  | levels + 1, chars => chars.take 2 ++ '/' :: fanOut levels (chars.drop 2)

/-- The characters of the path of a block below the common directory. -/
def nameChars (features : Features) (d : Digest) : List Char :=
  let chars := symbols features d
  if splits features then fanOut (if features.caseSensitive then 2 else 3) chars else chars

/-- The path of a block below the common directory. -/
def name (features : Features) (d : Digest) : String :=
  String.ofList (nameChars features d)

/-- The path of a block inside a store. -/
def write (features : Features) (d : Digest) : String :=
  String.ofList (top ++ nameChars features d)

/-- Why a path under the common directory can not be read: its name is not base 64. -/
inductive Error where
  | invalidName
  deriving DecidableEq, Repr

/-- The bytes a name stands for.  Base 64 has one spelling for each byte string, so left-over bits
must be zero; in base 32 they are ignored, and a name that is none stands for nothing. -/
def bytesOfName (features : Features) (chars : List Char) : Except Error (Option Bytes) :=
  if features.caseSensitive then
    match Packed.decode? Packed.base64Url chars with
    | some (bytes, left) => if left.any id then .error .invalidName else .ok (some bytes)
    | none => .error .invalidName
  else .ok ((Packed.decode? Packed.crockford32 chars).map Prod.fst)

/-- The characters of a name: what follows the common directory, less the separators.  Either slash
separates. -/
def readName? (path : List Char) : Option (List Char) :=
  let slashed := path.map fun c => if c = '\\' then '/' else c
  if top.isPrefixOf slashed then
    some ((slashed.drop top.length).filter fun c => c ≠ '/')
  else none

/-- The digest of the block a path belongs to.  Paths outside the common directory, and names that
do not stand for 32 bytes, belong to none. -/
def read (features : Features) (path : String) : Except Error (Option Digest) := do
  match readName? path.toList with
  | none | some [] => return none
  | some chars =>
    match ← bytesOfName features chars with
    | none => return none
    | some bytes => return (Digest.ofBytes bytes).toOption

end BlockPath

end PinnedStore
