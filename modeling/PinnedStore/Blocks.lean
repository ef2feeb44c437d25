import PinnedStore.Storage.Operations

/-!
# Blocks

A block is a byte string kept under its digest.  The path of a block follows from its digest, so
storing the same bytes twice changes nothing, and a block that is there already is not written
again.

* `Blocks.put`, `Blocks.get`, `Blocks.has`, `Blocks.size`, `Blocks.remove`: single blocks.
* `Blocks.list`: the digests of all blocks.  Objects that are no blocks are passed over.
-/

namespace PinnedStore.Blocks

open Program

/-- The path of a block in this store. -/
def path (d : Digest) : Program Failure String :=
  inspect fun w => BlockPath.write w.store.features d

/-- Stores bytes under their digest, which is the answer. -/
def put (data : Bytes) : Program Failure Digest := do
  let d := Digest.of data
  let path ← path d
  if ← Storage.isThere path then
    log (.blockPresent d)
    return d
  Storage.put path data
  return d

/-- The bytes of a block. -/
def get (d : Digest) : Program Failure Bytes := do
  Storage.read (← path d) 0 none

/-- Whether a block is there. -/
def has (d : Digest) : Program Failure Bool := do
  Storage.isThere (← path d)

/-- The size of a block. -/
def size (d : Digest) : Program Failure Nat := do
  Storage.size (← path d)

/-- Removes a block. -/
def remove (d : Digest) : Program Failure Unit := do
  Storage.delete (← path d)

/-- The digests of those paths that belong to blocks, in order.  The first name that can not be read
is a failure. -/
def digestsOf (features : Features) : List String → Except Failure (List Digest)
  | [] => .ok []
  | path :: rest =>
    match BlockPath.read features path with
    | .error .invalidName => .error (.io .invalidName)
    | .ok none => digestsOf features rest
    | .ok (some d) => (digestsOf features rest).map (d :: ·)

/-- The digests of all blocks. -/
def list : Program Failure (List Digest) := do
  let paths ← Storage.list
  let features ← Storage.features
  ofExcept (digestsOf features paths)

end PinnedStore.Blocks
