import PinnedStore.Collect

/-!
# Listing pins

The nodes that a query is about, each with its mode.  Recursive pins come first, then direct ones,
then the nodes that lie below a recursive pin and have no pin of their own; within a mode the order
is that of the digests.  The nodes of the pin record are listed only where they are asked for.
-/

namespace PinnedStore.Pin

open Program

/-- The nodes that lie below a recursive pin and have no pin of their own. -/
def indirect : Program Error (List Digest) := do
  let pins ← current
  let below ← Collect.reachable pins.recursive.toList
  return below.toList.filter fun d => d ∉ pins.recursive && d ∉ pins.direct

/-- Digests with a mode. -/
def labelled (mode : Mode) (ds : List Digest) : List (Digest × Mode) :=
  ds.map fun d => (d, mode)

/-- The nodes that a query is about, with their modes. -/
def listing (q : Query) : Program Error (List (Digest × Mode)) := do
  let pins ← current
  let below ← if q.covers .indirect then indirect else pure []
  return (if q.covers .recursive then labelled .recursive pins.recursive.toList else [])
    ++ (if q.covers .direct then labelled .direct pins.direct.toList else [])
    ++ (if q = .internal then labelled .internal pins.internal.toList else [])
    ++ labelled .indirect below

end PinnedStore.Pin
