import PinnedStore.Cbor.Record
import PinnedStore.Digest.Basic

/-!
# Nodes

A node is some data and an ordered list of named links to other nodes.  It is written as a record of
two fields, the links and the data, and named by the digest of what is written.  So a link can only
point at a node that was there before, and graphs of nodes have no cycles.

* `Node.encode`, `Node.decode`: the written form.
* `Node.digest`: the name of a node.
* `Node.emptyDigest`: the name of the node with neither data nor links.
* `Node.link?`: the target of the first link of a name.
-/

namespace PinnedStore

/-- A named edge to a node. -/
structure Link where
  name : String
  target : Digest
  deriving DecidableEq

/-- Some data and an ordered list of links. -/
structure Node where
  links : List Link
  data : Bytes
  deriving DecidableEq

namespace Cbor

/-- A digest is a byte string of 32 bytes. -/
def digest (d : Digest) : Bytes := byteString d.bytes

/-- Reads a digest. -/
def readDigest : Reader Digest := fun bytes => do
  let (data, rest) ← readBytes bytes
  match Digest.ofBytes data with
  | .ok d => return (d, rest)
  | .error e => throw (.message e.message)

end Cbor

namespace Link

/-- A link without a name, for entries that are told apart by their position. -/
def unnamed (target : Digest) : Link := ⟨"", target⟩

/-- The written form of a link. -/
def encode (l : Link) : Bytes :=
  Cbor.head .array 2 ++ Cbor.text l.name ++ Cbor.digest l.target

/-- Reads a link. -/
def read : Cbor.Reader Link := fun bytes => do
  let ((name, target), rest) ← Cbor.readPair Cbor.readText Cbor.readDigest bytes
  return (⟨name, target⟩, rest)

end Link

namespace Node

/-- The node with neither data nor links. -/
def empty : Node := ⟨[], []⟩

/-- A node of data alone. -/
def leaf (data : Bytes) : Node := ⟨[], data⟩

/-- Whether a node has neither data nor links. -/
def isEmpty (n : Node) : Bool := n.links.isEmpty && n.data.isEmpty

/-- The nodes a node points at, in order. -/
def targets (n : Node) : List Digest := n.links.map Link.target

/-- Adds a link after the others. -/
def addLink (n : Node) (name : String) (target : Digest) : Node :=
  { n with links := n.links ++ [⟨name, target⟩] }

/-- The target of the first link of a name. -/
def link? (n : Node) (name : String) : Option Digest :=
  (n.links.find? (·.name == name)).map Link.target

/-- The written form of a node. -/
def encode (n : Node) : Bytes :=
  Cbor.head .array 2 ++ Cbor.array Link.encode n.links ++ Cbor.byteString n.data

/-- Reads a node. -/
def read : Cbor.Reader Node := fun bytes => do
  let ((links, data), rest) ← Cbor.readPair (Cbor.readArray Link.read) Cbor.readBytes bytes
  return (⟨links, data⟩, rest)

/-- The node at the front of the bytes. -/
def decode (bytes : Bytes) : Except Cbor.Error Node :=
  (read bytes).map Prod.fst

/-- The name of a node. -/
def digest (n : Node) : Digest := Digest.of n.encode

/-- The name of the empty node. -/
def emptyDigest : Digest := empty.digest

end Node

end PinnedStore
