import PinnedStore.Failure
import PinnedStore.PinSet.Header

/-!
# Pin sets

A pin set gives some digests a positive count each.  Sets of digests are pin sets in which every
count is one.

* `Multiset`: the counts, under their digests.
* `Multiset.ofEntries`: adds up entries; a count stays at the largest 64-bit number once it is
  there, and entries that count nothing do not matter.
* `Damage`, `Error`: why a stored pin set can not be read.
* `Interrupted`: a failure together with the nodes met before it.
-/

namespace PinnedStore.PinSet

/-- A digest and how often it counts. -/
abbrev Entry := Digest × UInt64

/-- Positive counts of digests. -/
abbrev Multiset := Std.ExtTreeMap Digest UInt64

/-- The sum of two counts, or the largest count if the sum is larger. -/
def addCounts (a b : UInt64) : UInt64 :=
  (min (a.toNat + b.toNat) (UInt64.size - 1)).toUInt64

namespace Multiset

/-- Adds an entry. -/
def add (m : Multiset) (e : Entry) : Multiset :=
  if e.2 = 0 then m else m.insert e.1 (addCounts (m.getD e.1 0) e.2)

/-- Adds entries, one after the other. -/
def addAll (m : Multiset) (entries : List Entry) : Multiset :=
  entries.foldl add m

/-- The sum of entries. -/
def ofEntries (entries : List Entry) : Multiset :=
  addAll ∅ entries

/-- The digests that count. -/
def digests (m : Multiset) : Digests :=
  Std.ExtTreeSet.ofList m.keys

end Multiset

/-- What is wrong with a node of a stored pin set. -/
inductive Damage where
  /-- It has no readable header. -/
  | badHeader (e : Cbor.Error)
  /-- It is of a version that is not known here. -/
  | unsupportedVersion (version : UInt8)
  /-- It is a leaf whose counts and links differ in number. -/
  | unevenCounts (counts links : Nat)
  /-- It has buckets, but not one link for each, or it has counts as well. -/
  | unevenBuckets (fanout : UInt32) (links counts : Nat)
  deriving DecidableEq

/-- The words for what is wrong. -/
def Damage.message : Damage → String
  | .badHeader e => s!"bad header: {e.describe}"
  | .unsupportedVersion version => s!"unsupported version {version}"
  | .unevenCounts counts links => s!"{counts} counts for {links} entries"
  | .unevenBuckets fanout links counts =>
    s!"internal node with fanout {fanout} has {links} links and {counts} counts"

/-- Why a stored pin set can not be written or read. -/
inductive Error where
  /-- A node is not as it should be. -/
  | corrupt (d : Digest) (damage : Damage)
  /-- The node that should point at the set has no such link. -/
  | missingLink (name : String)
  /-- A node could not be written or read. -/
  | storage (f : Failure)
  deriving DecidableEq

/-- The words for a failure, outermost first. -/
def Error.chain : Error → List String
  | .corrupt d damage => [s!"pin set node {d} is corrupt: {damage.message}"]
  | .missingLink name => [s!"pin root has no link named '{name}'"]
  | .storage f => f.chain

/-- A failure in one line. -/
def Error.message (e : Error) : String := ": ".intercalate e.chain

/-- A failure, and the nodes met before it. -/
structure Interrupted (ε : Type) where
  cause : ε
  /-- The nodes in the order in which they were met. -/
  recorded : List Digest

end PinnedStore.PinSet
