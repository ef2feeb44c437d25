import PinnedStore.Node.Basic

/-!
# Headers of pin set nodes

Every node of a stored pin set begins with a header: the version of the format, how many buckets the
node has (none for a leaf), its level, and the counts of a leaf's entries.  It is a map from field
numbers to values, so fields may come in any order, fields of a later version are passed over, and
of a field given twice the last one holds.
-/

namespace PinnedStore.PinSet

/-- The version of the format. -/
def version : UInt8 := 1

/-- What a pin set node says about itself. -/
structure Header where
  version : UInt8
  /-- The number of buckets, or zero for a leaf. -/
  fanout : UInt32
  /-- The level of the node, which is also the seed its entries are split by. -/
  seed : UInt32
  /-- The counts of a leaf, in the order of its links. -/
  counts : List UInt64
  deriving DecidableEq, Repr

namespace Header

/-- The written form of a header. -/
def encode (h : Header) : Bytes :=
  Cbor.head .map 4
    ++ Cbor.head .unsigned 0 ++ Cbor.head .unsigned h.version.toNat
    ++ Cbor.head .unsigned 1 ++ Cbor.head .unsigned h.fanout.toNat
    ++ Cbor.head .unsigned 2 ++ Cbor.head .unsigned h.seed.toNat
    ++ Cbor.head .unsigned 3 ++ Cbor.array (fun c => Cbor.head .unsigned c.toNat) h.counts

/-- The fields read so far. -/
structure Partial where
  version : Option UInt8 := none
  fanout : Option UInt32 := none
  seed : Option UInt32 := none
  counts : Option (List UInt64) := none

/-- Reads the value of one field. -/
def Partial.field (key : Int) (p : Partial) : Cbor.Reader Partial := fun bytes => do
  if key = 0 then
    let (n, rest) ← Cbor.readUnsigned (UInt8.size - 1) bytes
    return ({ p with version := some n.toUInt8 }, rest)
  else if key = 1 then
    let (n, rest) ← Cbor.readUnsigned (UInt32.size - 1) bytes
    return ({ p with fanout := some n.toUInt32 }, rest)
  else if key = 2 then
    let (n, rest) ← Cbor.readUnsigned (UInt32.size - 1) bytes
    return ({ p with seed := some n.toUInt32 }, rest)
  else if key = 3 then
    let (counts, rest) ← Cbor.readArray (Cbor.readUnsigned (UInt64.size - 1)) bytes
    return ({ p with counts := some (counts.map Nat.toUInt64) }, rest)
  else
    let ((), rest) ← Cbor.skip bytes
    return (p, rest)

/-- The header, if every field has been read. -/
def Partial.complete (p : Partial) : Except Cbor.Error Header :=
  match p.version, p.fanout, p.seed, p.counts with
  | some version, some fanout, some seed, some counts => .ok ⟨version, fanout, seed, counts⟩
  | _, _, _, _ => .error .missingValue

/-- The header at the front of the bytes. -/
def decode (bytes : Bytes) : Except Cbor.Error Header := do
  let (p, _) ← Cbor.readEntries Partial.field {} bytes
  p.complete

end Header

end PinnedStore.PinSet
