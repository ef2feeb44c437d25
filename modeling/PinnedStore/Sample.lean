import PinnedStore.Cbor.Basic
import PinnedStore.Digest.Basic

/-!
# Sample data

Bytes and digests that look arbitrary and are the same for the same seed.

* `Sample.bytes`: any number of bytes.
* `Sample.digests`: any number of digests, all different, in ascending order.
* `Sample.repeated`: digests that can be told apart at a glance.
-/

namespace PinnedStore.Sample

/-- The block of sample bytes with this number. -/
def block (seed number : Nat) : Bytes :=
  Blake3.hash (Cbor.bigEndian 8 seed ++ Cbor.bigEndian 8 number)

/-- Sample bytes. -/
def bytes (seed length : Nat) : Bytes :=
  ((List.range (length / 32 + 1)).flatMap (block seed)).take length

/-- The sample digest with this number.  Its last bytes are the number, so that different numbers
have different digests. -/
def digest (seed number : Nat) : Digest where
  bytes := (block seed number).take 24 ++ Cbor.bigEndian 8 number
  length_bytes := by simp [block, Blake3.length_hash]

/-- Sample digests in ascending order. -/
def digests (seed count : Nat) : List Digest :=
  (Std.ExtTreeSet.ofList ((List.range count).map (digest seed)) : Digests).toList

/-- The digest all of whose bytes are the same. -/
def repeated (byte : UInt8) : Digest where
  bytes := List.replicate 32 byte
  length_bytes := List.length_replicate

end PinnedStore.Sample
