import PinnedStore.Digest.Xxh3
import PinnedStore.PinSet.Basic

/-!
# How pin sets are split

A pin set is written as a tree of nodes.  A few entries make a leaf; more are split into buckets by
a hash of their digests, each bucket a tree of its own.  The level of a node seeds the hash, so
entries that share a bucket are split anew one level down.

* `Codec`: how many buckets, how many entries a leaf holds, and the hash.
* `Codec.make?`: the codec of two settings, or why there is none.
* `Codec.buckets`: the entries of each bucket.
* `Codec.leaf`, `Codec.branch`: the nodes.
-/

namespace PinnedStore.PinSet

/-- The settings by which pin sets are split. -/
structure Codec where
  /-- The number of buckets. -/
  fanout : UInt32
  /-- The number of entries up to which a leaf is not split. -/
  maxItems : Nat
  /-- The hash of a digest at a level. -/
  spread : (level : Nat) → Digest → Nat
  two_le_fanout : 2 ≤ fanout.toNat
  maxItems_pos : 0 < maxItems

/-- The level below which nothing is split any more. -/
def deepest : Nat := 8

namespace Codec

/-- The hash in use. -/
def standardSpread (level : Nat) (d : Digest) : Nat :=
  (Xxh3.hash level.toUInt64 d.bytes).toNat

/-- Why two settings make no codec. -/
inductive Invalid where
  /-- Fewer than two buckets would never make a bucket smaller. -/
  | fanout (found : UInt32)
  /-- A leaf of no entries would never be small enough. -/
  | maxItems
  deriving DecidableEq, Repr

/-- The words for settings that make no codec. -/
def Invalid.message : Invalid → String
  | .fanout found => s!"pin set fanout must be at least 2, got {found}"
  | .maxItems => "pin set max_items must be positive"

/-- The codec of two settings, with the hash in use. -/
def make? (fanout : UInt32) (maxItems : Nat) : Except Invalid Codec :=
  if hf : 2 ≤ fanout.toNat then
    if hm : 0 < maxItems then .ok ⟨fanout, maxItems, standardSpread, hf, hm⟩
    else .error .maxItems
  else .error (.fanout fanout)

variable (codec : Codec)

/-- The bucket of a digest at a level. -/
def bucket (level : Nat) (d : Digest) : Nat :=
  codec.spread level d % codec.fanout.toNat

theorem bucket_lt (level : Nat) (d : Digest) : codec.bucket level d < codec.fanout.toNat :=
  Nat.mod_lt _ (by have := codec.two_le_fanout; omega)

/-- Puts an entry in front of its bucket. -/
def place (level : Nat) (e : Entry) (buckets : Array (List Entry)) : Array (List Entry) :=
  buckets.modify (codec.bucket level e.1) (e :: ·)

/-- The entries of each bucket of a level, in their order. -/
def buckets (level : Nat) (entries : List Entry) : List (List Entry) :=
  (entries.foldr (codec.place level) (Array.replicate codec.fanout.toNat [])).toList

theorem size_place (level : Nat) (e : Entry) (buckets : Array (List Entry)) :
    (codec.place level e buckets).size = buckets.size := by
  simp [place]

@[simp] theorem length_buckets (level : Nat) (entries : List Entry) :
    (codec.buckets level entries).length = codec.fanout.toNat := by
  have size : (entries.foldr (codec.place level)
      (Array.replicate codec.fanout.toNat [])).size = codec.fanout.toNat := by
    induction entries with
    | nil => simp
    | cons e rest ih => rw [List.foldr_cons, size_place, ih]
  simpa [buckets] using size

/-- Whether entries at a level make a leaf. -/
def isLeaf (level : Nat) (entries : List Entry) : Bool :=
  entries.length ≤ codec.maxItems || deepest ≤ level

end Codec

/-- The leaf that holds some entries. -/
def leaf (level : Nat) (entries : List Entry) : Node :=
  ⟨entries.map fun e => .unnamed e.1,
    Header.encode ⟨version, 0, level.toUInt32, entries.map Prod.snd⟩⟩

/-- The node of some buckets. -/
def branch (fanout : UInt32) (level : Nat) (buckets : List Digest) : Node :=
  ⟨buckets.map .unnamed, Header.encode ⟨version, fanout, level.toUInt32, []⟩⟩

end PinnedStore.PinSet
