import PinnedStore.Graph
import PinnedStore.PinSet.Basic

/-!
# Reading pin sets

A stored pin set is read from its top node, buckets from the first to the last and every node as
often as it is linked, and its leaves are added up.  How the set was split does not matter.  The
empty node is known by its name and not read; a node that turns out to have neither data nor links
is an empty bucket too.

Reading stops at the first node that can not be read or is not as it should be.

## Why reading ends

Down a path of links no node comes twice, unless a node can be reached from itself.  So no path that
reading can follow is longer than there are objects in the store, and one step more is never needed.

* `readTree`: reads the tree below a node.
* `read`: reads a pin set; the answer is the set and the nodes met.
* `readLink`, `readSet`: reads the set that a node points at.
-/

namespace PinnedStore.PinSet

open Program

/-- What has been read. -/
structure Reading where
  set : Multiset
  /-- The nodes met, the newest first. -/
  recorded : List Digest

/-- What a node of a pin set is. -/
inductive Shape where
  /-- An empty bucket. -/
  | hollow
  /-- Entries. -/
  | leaf (entries : List Entry)
  /-- Buckets. -/
  | branch (buckets : List Digest)

/-- The shape of a node, or what is wrong with it. -/
def shape (node : Node) : Except Damage Shape :=
  if node.isEmpty then .ok .hollow
  else
    match Header.decode node.data with
    | .error e => .error (.badHeader e)
    | .ok header =>
      let links := node.targets
      if header.version ≠ version then .error (.unsupportedVersion header.version)
      else if header.fanout = 0 then
        if header.counts.length = links.length then .ok (.leaf (links.zip header.counts))
        else .error (.unevenCounts header.counts.length links.length)
      else if links.length = header.fanout.toNat ∧ header.counts = [] then .ok (.branch links)
      else .error (.unevenBuckets header.fanout links.length header.counts.length)

/-- Reads the tree below a node; `fuel` bounds how deep it is. -/
def readTree : (fuel : Nat) → Reading → Digest → Program (Interrupted Error) Reading
  | 0, _, _ => halt
  | fuel + 1, r, d => do
    let r := { r with recorded := d :: r.recorded }
    if d = Node.emptyDigest then return r
    let node ← mapError (fun f => ⟨.storage f, r.recorded.reverse⟩) (Graph.get d)
    match shape node with
    | .error damage => fail ⟨.corrupt d damage, r.recorded.reverse⟩
    | .ok .hollow => return r
    | .ok (.leaf entries) => return { r with set := r.set.addAll entries }
    | .ok (.branch buckets) => buckets.foldlM (readTree fuel) r

/-- Reads the pin set with this top node.  The answer is the set and the nodes met, in order. -/
def read (top : Digest) : Program (Interrupted Error) (Multiset × List Digest) := do
  let r ← readTree ((← Graph.bound) + 1) ⟨∅, []⟩ top
  return (r.set, r.recorded.reverse)

/-- Reads the pin set that a node points at. -/
def readLink (holder : Node) (name : String) :
    Program (Interrupted Error) (Multiset × List Digest) :=
  match holder.link? name with
  | some top => read top
  | none => fail ⟨.missingLink name, []⟩

/-- Reads the set that a node points at; counts do not matter. -/
def readSet (holder : Node) (name : String) :
    Program (Interrupted Error) (Digests × List Digest) := do
  let (set, recorded) ← readLink holder name
  return (set.digests, recorded)

end PinnedStore.PinSet
