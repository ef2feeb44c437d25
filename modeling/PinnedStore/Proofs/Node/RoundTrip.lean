import PinnedStore.Node.Basic
import PinnedStore.Proofs.Cbor.RoundTrip

/-!
# Reading back nodes

A node whose links and data can be counted in 64 bits is read back as it was written.

* `Node.Countable`: lengths fit 64 bits.
* `Node.decode_encode`: reading back a node.
-/

namespace PinnedStore

theorem Cbor.reads_digest (d : Digest) : Cbor.Reads Cbor.readDigest (Cbor.digest d) d := by
  intro rest
  have fits : d.bytes.length < UInt64.size := by rw [d.length_bytes]; decide
  rw [readDigest, digest, reads_byteString fits]
  simp only [bind, Except.bind, Digest.ofBytes_bytes]
  rfl

theorem Link.reads_encode (l : Link) (fits : (Bytes.ofText l.name).length < UInt64.size) :
    Cbor.Reads Link.read l.encode l := by
  intro rest
  rw [Link.read, Link.encode, Cbor.reads_pair (Cbor.reads_text fits) (Cbor.reads_digest l.target)]
  rfl

namespace Node

/-- The lengths in a node fit 64 bits. -/
structure Countable (n : Node) : Prop where
  links : n.links.length < UInt64.size
  names : ∀ l ∈ n.links, (Bytes.ofText l.name).length < UInt64.size
  data : n.data.length < UInt64.size

theorem reads_encode {n : Node} (countable : n.Countable) : Cbor.Reads read n.encode n := by
  intro rest
  have links : Cbor.Reads (Cbor.readArray Link.read) (Cbor.array Link.encode n.links) n.links :=
    Cbor.reads_array countable.links fun l h => l.reads_encode (countable.names l h)
  rw [read, encode, Cbor.reads_pair links (Cbor.reads_byteString countable.data)]
  rfl

theorem decode_encode {n : Node} (countable : n.Countable) : decode n.encode = .ok n := by
  have whole := reads_encode countable []
  rw [List.append_nil] at whole
  rw [decode, whole]
  rfl

end Node

end PinnedStore
