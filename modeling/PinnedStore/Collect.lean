import PinnedStore.Pin.Change

/-!
# Collecting what nobody needs

The blocks that must be kept are everything below the recursive pins, these pins themselves, the
direct pins, and the nodes of the pin record.  A sweep removes all other blocks.  What must be kept
has to be known in full before anything is removed, so a graph that can not be read in full stops
the collection before it starts; a block that can not be removed does not stop the sweep.

* `reachable`: everything that can be reached from some nodes.
* `retained`: everything that must be kept.
* `sweep`: removes the rest, or only says what it would remove.
-/

namespace PinnedStore.Collect

open Program

/-- The nodes that can be reached from `roots`, which are themselves among them. -/
def reachable (roots : List Digest) : Program Pin.Error Digests :=
  Graph.closure Pin.fetchNode roots

/-- Everything that must be kept. -/
def retained : Program Pin.Error Digests := do
  let pins ← Pin.current
  let below ← reachable pins.recursive.toList
  let kept := (below.insertMany pins.direct.toList).insertMany pins.internal.toList
  log (.retainedCollected kept.size)
  return kept

/-- What a sweep found and did. -/
structure Report where
  /-- The number of blocks. -/
  total : Nat
  /-- The number of blocks that must be kept. -/
  kept : Nat
  /-- The number of blocks removed. -/
  deleted : Nat
  /-- The other blocks, in ascending order. -/
  candidates : List Digest
  /-- The blocks that could not be removed. -/
  errors : List (Digest × Failure)

/-- Removes blocks; the answer is those that could not be removed. -/
def removeAll : List Digest → Program Failure (List (Digest × Failure))
  | [] => return []
  | d :: rest => do
    match ← attempt (Blocks.remove d) with
    | .ok () => removeAll rest
    | .error f =>
      log (.blockKept d f)
      return (d, f) :: (← removeAll rest)

/-- Removes every block outside `retained`, or removes nothing if it is a dry run. -/
def sweep (retained : Digests) (dryRun : Bool) : Program Failure Report := do
  let blocks ← Blocks.list
  let candidates := blocks.filter (· ∉ retained)
  let errors ← if dryRun then pure [] else removeAll candidates
  return {
    total := blocks.length
    kept := blocks.length - candidates.length
    deleted := if dryRun then 0 else candidates.length - errors.length
    candidates := candidates.mergeSort fun a b => (compare a b).isLE
    errors }

end PinnedStore.Collect
