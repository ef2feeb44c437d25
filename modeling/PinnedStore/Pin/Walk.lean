import PinnedStore.Graph
import PinnedStore.Pin.Basic

/-!
# Looking below a node

Whether a node lies below another one, and below which of several it lies.  The walk reads a node,
looks for the one it is after among its links, and puts those links on its stack that it has not met
before, so that the first link is followed first.

## Why the walk ends

Apart from the node it starts from, which may turn up once more as a link, the walk reads no node
twice.  Two steps more than there are objects in the store are therefore never needed.

* `hasChild`: whether a node lies strictly below another one.
* `findRoot`: the first of some nodes below which a node lies.
-/

namespace PinnedStore.Pin

open Program

/-- Reads a node for a walk. -/
def fetchNode (d : Digest) : Program Error Node :=
  mapError .fetch (Graph.get d)

/-- Puts a link on the stack unless it has been met. -/
def meet (met : Digests × List Digest) (d : Digest) : Digests × List Digest :=
  if d ∈ met.1 then met else (met.1.insert d, d :: met.2)

/-- Looks on from the nodes on the stack. -/
def hasChildFrom (child : Digest) :
    (fuel : Nat) → (seen : Digests) → (stack : List Digest) → Program Error Bool
  | 0, _, _ => halt
  | _ + 1, _, [] => return false
  | fuel + 1, seen, d :: rest => do
    let node ← fetchNode d
    if child ∈ node.targets then return true
    let (seen, stack) := node.targets.reverse.foldl meet (seen, rest)
    hasChildFrom child fuel seen stack

/-- Whether `child` can be reached from `root` by at least one link. -/
def hasChild (root child : Digest) : Program Error Bool := do
  hasChildFrom child ((← Graph.bound) + 2) ∅ [root]

/-- The first of the roots from which a node can be reached by at least one link. -/
def findRoot (d : Digest) : List Digest → Program Error (Option Digest)
  | [] => return none
  | root :: rest => do
    if ← hasChild root d then return some root
    findRoot d rest

end PinnedStore.Pin
