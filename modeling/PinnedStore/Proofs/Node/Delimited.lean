import PinnedStore.Sample
import PinnedStore.Proofs.Cbor.Truncation
import PinnedStore.Proofs.Node.RoundTrip

/-!
# Written nodes say where they end

What is written of a node is read back whatever follows it, and no part of it that lacks its end is
read as a node at all.  So from the bytes alone it is clear where a node ends: different nodes are
written differently, and one is never the beginning of the other.

* `Link.notices_encode`, `Node.notices_encode`: a link or a node that is cut off is noticed.
* `Node.encode_delimited`: written nodes are read back, say where they end, and tell nodes apart.
-/

namespace PinnedStore

open Cbor (Cut Notices)

theorem Cbor.notices_digest (d : Digest) : Notices readDigest (digest d) := by
  have fits : d.bytes.length < UInt64.size := by rw [d.length_bytes]; decide
  exact fun _ cut => (notices_byteString fits).followed _ cut

theorem Link.notices_encode (l : Link) (fits : (Bytes.ofText l.name).length < UInt64.size) :
    Notices Link.read l.encode := by
  have fields : Notices (Cbor.readPair Cbor.readText Cbor.readDigest) l.encode :=
    Cbor.notices_pair (Cbor.reads_text fits) (Cbor.notices_text fits) (Cbor.notices_digest l.target)
  exact fun _ cut => fields.followed _ cut

namespace Node

variable {n m : Node}

theorem notices_encode (countable : n.Countable) : Notices read n.encode := by
  have reads : ∀ l ∈ n.links, Cbor.Reads Link.read l.encode l :=
    fun l h => l.reads_encode (countable.names l h)
  have notices : ∀ l ∈ n.links, Notices Link.read l.encode :=
    fun l h => l.notices_encode (countable.names l h)
  have fields : Notices (Cbor.readPair (Cbor.readArray Link.read) Cbor.readBytes) n.encode :=
    Cbor.notices_pair (Cbor.reads_array countable.links reads)
      (Cbor.notices_array countable.links reads notices) (Cbor.notices_byteString countable.data)
  exact fun _ cut => fields.followed _ cut

theorem decode_append (countable : n.Countable) (rest : Bytes) :
    decode (n.encode ++ rest) = .ok n := by
  rw [decode, reads_encode countable rest]
  rfl

theorem decode_cut (countable : n.Countable) {part : Bytes} (cut : Cut part n.encode) :
    decode part = .error .endOfInput := by
  rw [decode, notices_encode countable part cut]
  rfl

/-- What begins the bytes of a node is not the whole of another. -/
theorem eq_of_encode_begins (countable : n.Countable) (countable' : m.Countable)
    (begins : m.encode <+: n.encode) : m = n := by
  obtain ⟨rest, whole⟩ := begins
  have read : decode n.encode = .ok m := by rw [← whole, decode_append countable' rest]
  exact Except.ok.inj (read.symm.trans (decode_encode countable))

/-- Bytes that start with a written node are read as that node, whatever follows, and a written node
that lacks some bytes at its end is not read at all.  So what is written of another node is neither
the same nor the beginning of it. -/
theorem encode_delimited (countable : n.Countable) :
    (∀ rest, decode (n.encode ++ rest) = .ok n) ∧
      (∀ part, part <+: n.encode → part ≠ n.encode → decode part = .error .endOfInput) ∧
      ∀ m : Node, m.Countable → m ≠ n → m.encode ≠ n.encode ∧ ¬ m.encode <+: n.encode := by
  refine ⟨decode_append countable,
    fun part isPrefix short => decode_cut countable ⟨isPrefix, short⟩,
    fun m countable' other => ?_⟩
  have apart : ¬ m.encode <+: n.encode :=
    fun begins => other (eq_of_encode_begins countable countable' begins)
  exact ⟨fun same => apart (same ▸ List.prefix_refl m.encode), apart⟩

/-- A node whose link has a name beyond ASCII and whose data takes a length byte of its own: it is
cut off inside a character, and it is told apart from the node without data. -/
theorem encode_delimited_accented :
    let n : Node := ⟨[⟨"né", Sample.repeated 7⟩], Sample.bytes 0 24⟩
    let bare : Node := ⟨n.links, []⟩
    n.Countable ∧ bare.Countable ∧ bare ≠ n ∧
      decode (n.encode ++ [0xFF, 0x00]) = .ok n ∧
      decode (n.encode.take 6) = .error .endOfInput ∧ n.encode[5]? = some 0xC3 ∧
      ¬ bare.encode <+: n.encode := by
  intro n bare
  have names : ∀ l ∈ n.links, (Bytes.ofText l.name).length < UInt64.size := by decide
  have countable : n.Countable := ⟨by decide, names, by decide +kernel⟩
  have countable' : bare.Countable := ⟨by decide, names, by decide⟩
  have other : bare ≠ n := by decide +kernel
  obtain ⟨whole, cut, apart⟩ := encode_delimited countable
  exact ⟨countable, countable', other, whole _, cut _ (List.take_prefix 6 _) (by decide +kernel),
    by decide +kernel, (apart bare countable' other).2⟩

end Node

end PinnedStore
