import PinnedStore.PinSet.Read
import PinnedStore.PinSet.Write
import PinnedStore.Proofs.Node.RoundTrip

/-!
# Reading back the nodes of pin sets

The nodes that a codec writes are told apart when they are read: a leaf gives its entries back, a
branch its buckets, and the empty node is hollow.  For that the number of entries in a leaf has to
be one that memory can hold, since the header counts its own bytes in 64 bits.

* `Header.decode_encode`: reading back a header.
* `shape_leaf`, `shape_branch`: what leaves and branches are read as.
* `decode_leaf`, `decode_branch`: leaves and branches are read back as nodes.
-/

namespace PinnedStore.PinSet

/-- More entries than any memory holds.  An entry takes up forty bytes, and a list of so many of
them would take up more than `2 ^ 63`. -/
def uncountable : Nat := 2 ^ 58

namespace Header

theorem reads_counts {counts : List UInt64} (fits : counts.length < UInt64.size) :
    Cbor.Reads (Cbor.readArray (Cbor.readUnsigned (UInt64.size - 1)))
      (Cbor.array (fun c => Cbor.head .unsigned c.toNat) counts) (counts.map UInt64.toNat) := by
  have same : Cbor.array (fun c : UInt64 => Cbor.head .unsigned c.toNat) counts
      = Cbor.array (Cbor.head .unsigned) (counts.map UInt64.toNat) := by
    rw [Cbor.array, Cbor.array, List.length_map, List.flatMap_map]
  rw [same]
  refine Cbor.reads_array (by rwa [List.length_map]) fun n h => ?_
  obtain ⟨c, -, rfl⟩ := List.mem_map.mp h
  exact Cbor.reads_unsigned c.toNat_lt (Nat.le_pred_of_lt c.toNat_lt)

/-- One field of a header is read where it stands. -/
theorem readEntries_step {p p' : Partial} {key count : Nat} {written rest : Bytes}
    (small : key < 24) (reads : Cbor.Reads (Partial.field key p) written p') :
    Cbor.readEntriesCounted Partial.field (count + 1) p
      (Cbor.head .unsigned key ++ (written ++ rest))
      = Cbor.readEntriesCounted Partial.field count p' rest := by
  rw [Cbor.readEntriesCounted, Cbor.reads_signed (Nat.lt_trans small (by decide))]
  simp only [bind, Except.bind]
  rw [reads rest]

theorem reads_version (p : Partial) (v : UInt8) :
    Cbor.Reads (Partial.field (0 : Nat) p) (Cbor.head .unsigned v.toNat)
      { p with version := some v } := by
  intro rest
  have fits : v.toNat < UInt64.size := Nat.lt_trans v.toNat_lt (by decide)
  have small : v.toNat ≤ UInt8.size - 1 := Nat.le_pred_of_lt v.toNat_lt
  rw [Partial.field, if_pos (by decide), Cbor.reads_unsigned fits small]
  simp [bind, Except.bind, pure, Except.pure]

theorem reads_fanout (p : Partial) (v : UInt32) :
    Cbor.Reads (Partial.field (1 : Nat) p) (Cbor.head .unsigned v.toNat)
      { p with fanout := some v } := by
  intro rest
  have fits : v.toNat < UInt64.size := Nat.lt_trans v.toNat_lt (by decide)
  have small : v.toNat ≤ UInt32.size - 1 := Nat.le_pred_of_lt v.toNat_lt
  rw [Partial.field, if_neg (by decide), if_pos (by decide),
    Cbor.reads_unsigned fits small]
  simp [bind, Except.bind, pure, Except.pure]

theorem reads_seed (p : Partial) (v : UInt32) :
    Cbor.Reads (Partial.field (2 : Nat) p) (Cbor.head .unsigned v.toNat)
      { p with seed := some v } := by
  intro rest
  have fits : v.toNat < UInt64.size := Nat.lt_trans v.toNat_lt (by decide)
  have small : v.toNat ≤ UInt32.size - 1 := Nat.le_pred_of_lt v.toNat_lt
  rw [Partial.field, if_neg (by decide), if_neg (by decide), if_pos (by decide),
    Cbor.reads_unsigned fits small]
  simp [bind, Except.bind, pure, Except.pure]

theorem reads_countsField (p : Partial) {counts : List UInt64}
    (fits : counts.length < UInt64.size) :
    Cbor.Reads (Partial.field (3 : Nat) p)
      (Cbor.array (fun c => Cbor.head .unsigned c.toNat) counts)
      { p with counts := some counts } := by
  intro rest
  rw [Partial.field, if_neg (by decide), if_neg (by decide), if_neg (by decide), if_pos (by decide),
    reads_counts fits]
  simp [bind, Except.bind, pure, Except.pure, Function.comp_def]

theorem decode_encode {h : Header} (fits : h.counts.length < UInt64.size) :
    decode h.encode = .ok h := by
  have whole : h.encode = Cbor.head .map 4 ++ (Cbor.head .unsigned 0
      ++ (Cbor.head .unsigned h.version.toNat
      ++ (Cbor.head .unsigned 1 ++ (Cbor.head .unsigned h.fanout.toNat
      ++ (Cbor.head .unsigned 2 ++ (Cbor.head .unsigned h.seed.toNat
      ++ (Cbor.head .unsigned 3
        ++ (Cbor.array (fun c => Cbor.head .unsigned c.toNat) h.counts ++ [])))))))) := by
    simp only [encode, List.append_assoc, List.append_nil]
  rw [decode, Cbor.readEntries, whole, Cbor.reads_openHead .map (by decide)]
  simp only [bind, Except.bind]
  rw [readEntries_step (by decide) (reads_version _ _),
    readEntries_step (by decide) (reads_fanout _ _),
    readEntries_step (by decide) (reads_seed _ _),
    readEntries_step (by decide) (reads_countsField _ fits)]
  rfl

/-! ## Lengths -/

theorem length_head_le (kind : Cbor.Major) (n : Nat) : (Cbor.head kind n).length ≤ 9 := by
  rw [Cbor.head_eq, List.length_cons, Cbor.longForm]
  split
  · simp
  · split
    · simp
    · split
      · simp
      · split <;> simp

theorem length_counts_le (counts : List UInt64) :
    (counts.flatMap fun c => Cbor.head .unsigned c.toNat).length ≤ 9 * counts.length := by
  induction counts with
  | nil => simp
  | cons c rest ih =>
    have := length_head_le .unsigned c.toNat
    rw [List.flatMap_cons, List.length_append, List.length_cons]
    omega

theorem length_encode_le (h : Header) : h.encode.length ≤ 9 * h.counts.length + 81 + 9 := by
  have counts := length_counts_le h.counts
  have bounds := length_head_le
  simp only [encode, Cbor.array, List.length_append]
  have := bounds .map 4
  have := bounds .unsigned 0
  have := bounds .unsigned 1
  have := bounds .unsigned 2
  have := bounds .unsigned 3
  have := bounds .unsigned h.version.toNat
  have := bounds .unsigned h.fanout.toNat
  have := bounds .unsigned h.seed.toNat
  have := bounds .array h.counts.length
  omega

end Header

/-! ## Nodes -/

variable {level : Nat} {entries : List Entry} {fanout : UInt32} {buckets : List Digest}

theorem targets_unnamed (ds : List Digest) (data : Bytes) :
    Node.targets ⟨ds.map .unnamed, data⟩ = ds := by
  simp [Node.targets, Link.unnamed, Function.comp_def]

theorem length_name_unnamed (d : Digest) :
    (Bytes.ofText (Link.unnamed d).name).length < UInt64.size :=
  Nat.two_pow_pos 64

theorem decode_leaf (fits : entries.length < uncountable) :
    Node.decode (leaf level entries).encode = .ok (leaf level entries) := by
  refine Node.decode_encode ⟨?_, fun l h => ?_, ?_⟩
  · rw [leaf, List.length_map]
    exact Nat.lt_trans fits (by decide)
  · obtain ⟨e, -, rfl⟩ := List.mem_map.mp h
    exact length_name_unnamed e.1
  · have := Header.length_encode_le ⟨version, 0, level.toUInt32, entries.map Prod.snd⟩
    rw [List.length_map] at this
    have big : 9 * uncountable + 81 + 9 < UInt64.size := by decide
    change (Header.encode _).length < UInt64.size
    omega

theorem decode_branch (counted : buckets.length = fanout.toNat) :
    Node.decode (branch fanout level buckets).encode = .ok (branch fanout level buckets) := by
  refine Node.decode_encode ⟨?_, fun l h => ?_, ?_⟩
  · rw [branch, List.length_map, counted]
    exact Nat.lt_trans fanout.toNat_lt (by decide)
  · obtain ⟨d, -, rfl⟩ := List.mem_map.mp h
    exact length_name_unnamed d
  · have := Header.length_encode_le ⟨version, fanout, level.toUInt32, []⟩
    exact Nat.lt_of_le_of_lt this (show 9 * 0 + 81 + 9 < UInt64.size by decide)

/-- A leaf gives its entries back. -/
theorem shape_leaf (nonempty : entries ≠ []) (fits : entries.length < uncountable) :
    shape (leaf level entries) = .ok (.leaf entries) := by
  have wide : entries.length < UInt64.size := Nat.lt_trans fits (by decide)
  have links : (leaf level entries).targets = entries.map Prod.fst := by
    simp [leaf, Node.targets, Link.unnamed, Function.comp_def]
  have header : Header.decode (leaf level entries).data
      = .ok ⟨version, 0, level.toUInt32, entries.map Prod.snd⟩ :=
    Header.decode_encode (by rwa [List.length_map])
  rw [shape, if_neg (by simp [Node.isEmpty, leaf, nonempty]), header]
  dsimp only
  rw [if_neg (fun h => h rfl), if_pos rfl, links, if_pos (by simp)]
  have zipped : (entries.map Prod.fst).zip (entries.map Prod.snd) = entries := by
    rw [List.zip_map', List.map_id'']
    exact fun _ => rfl
  rw [zipped]

/-- A branch gives its buckets back. -/
theorem shape_branch (several : 2 ≤ fanout.toNat) (counted : buckets.length = fanout.toNat) :
    shape (branch fanout level buckets) = .ok (.branch buckets) := by
  have nonempty : buckets ≠ [] := by
    rintro rfl
    rw [List.length_nil] at counted
    omega
  have positive : fanout ≠ 0 := by
    rintro rfl
    exact absurd several (by decide)
  have header : Header.decode (branch fanout level buckets).data
      = .ok ⟨version, fanout, level.toUInt32, []⟩ :=
    Header.decode_encode (Nat.two_pow_pos 64)
  rw [shape, if_neg (by simp [Node.isEmpty, branch, nonempty]), header]
  dsimp only
  rw [if_neg (fun h => h rfl), if_neg positive, branch, targets_unnamed, if_pos ⟨counted, rfl⟩]

end PinnedStore.PinSet
