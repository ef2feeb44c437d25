import PinnedStore.Proofs.PinSet.Counts
import PinnedStore.Proofs.PinSet.Decodes
import PinnedStore.Proofs.PinSet.Header
import PinnedStore.Proofs.PinSet.Plan
import PinnedStore.Sample

/-!
# Reading back a pin set

What a codec writes, reading adds up to what was written, whatever the codec.  Writing and reading
go through the tree in different orders, and meet at the relation `Decodes`: the tree of some
entries, wherever its nodes are stored, stands for the same entries in another order, and the names
met are the names of its nodes, each as often as there is such a node, in another order as well.

The empty node is known by its name and never read.  So its content counts as stored wherever pin
sets are written or read, and no other block may have its digest.

* `Codec.buckets_perm`: splitting loses no entry.
* `Codec.decodes_written`: what is written stands for the entries.
* `read_honest`: reading a pin set, where it stands for anything.
* `read_of_write`: reading back what was written.
-/

namespace PinnedStore.PinSet

open Program

namespace Codec

variable (codec : Codec) {left : Nat} {entries : List Entry}

/-! ## Splitting -/

theorem flatten_modify_perm (e : Entry) {i : Nat} {buckets : List (List Entry)}
    (inside : i < buckets.length) :
    (buckets.modify i (e :: ·)).flatten.Perm (e :: buckets.flatten) := by
  induction buckets generalizing i with
  | nil => simp at inside
  | cons bucket rest ih =>
    cases i with
    | zero => simp
    | succ i =>
      rw [List.modify_succ_cons, List.flatten_cons, List.flatten_cons]
      exact ((ih (Nat.lt_of_succ_lt_succ inside)).append_left bucket).trans List.perm_middle

/-- An entry goes to the front of its bucket. -/
theorem buckets_cons (level : Nat) (e : Entry) (rest : List Entry) : codec.buckets level (e :: rest)
    = (codec.buckets level rest).modify (codec.bucket level e.1) (e :: ·) := by
  rw [buckets, List.foldr_cons, place, Array.toList_modify]
  rfl

/-- Splitting loses no entry. -/
theorem buckets_perm (level : Nat) (entries : List Entry) :
    (codec.buckets level entries).flatten.Perm entries := by
  induction entries with
  | nil => simp [buckets]
  | cons e rest ih =>
    have inside : codec.bucket level e.1 < (codec.buckets level rest).length := by
      rw [length_buckets]
      exact codec.bucket_lt level e.1
    rw [buckets_cons]
    exact (flatten_modify_perm e inside).trans (ih.cons e)

theorem length_le_of_mem_buckets {level : Nat} {bucket : List Entry}
    (inside : bucket ∈ codec.buckets level entries) : bucket.length ≤ entries.length := by
  rw [← (codec.buckets_perm level entries).length_eq]
  exact (List.sublist_flatten_of_mem inside).length_le

/-! ## Nodes -/

/-- A node of a tree is the empty one, a leaf or a branch, and can be told from the empty one. -/
theorem decode_of_mem_nodes (fits : entries.length < uncountable) {n : Node}
    (inside : n ∈ codec.nodes left entries) : Node.decode n.encode = .ok n := by
  induction left, entries using codec.tree_induction with
  | empty left =>
    rw [nodes_nil, List.mem_singleton] at inside
    subst inside
    exact Node.decode_encode ⟨by decide, nofun, by decide⟩
  | leaf left entries nonempty isLeaf =>
    rw [nodes_leaf nonempty isLeaf, List.mem_singleton] at inside
    subst inside
    exact decode_leaf fits
  | branch left entries deep ih =>
    rw [nodes_branch deep] at inside
    rcases List.mem_append.mp inside with below | top
    · obtain ⟨bucket, isBucket, inside⟩ := List.mem_flatMap.mp below
      have := codec.length_le_of_mem_buckets isBucket
      exact ih bucket isBucket (by omega) inside
    · rw [List.mem_singleton.mp top, topNode_branch deep]
      exact decode_branch (by rw [List.length_map, length_buckets])

/-! ## What the tree stands for -/

/-- Each of some trees stands for its entries, and its names are met as often as it has nodes. -/
theorem decodes_buckets {node? : Digest → Option Node} {buckets : List (List Entry)}
    (each : ∀ bucket ∈ buckets, ∃ met found,
      Decodes node? [(codec.topNode left bucket).digest] met found ∧ found.Perm bucket ∧
        met.Perm ((codec.nodes left bucket).map Node.digest)) :
    ∃ met found,
      Decodes node? (buckets.map fun bucket => (codec.topNode left bucket).digest) met found ∧
      found.Perm buckets.flatten ∧
      met.Perm ((buckets.flatMap (codec.nodes left)).map Node.digest) := by
  induction buckets with
  | nil => exact ⟨[], [], .done, .refl _, .refl _⟩
  | cons bucket rest ih =>
    obtain ⟨met, found, decodes, perm, names⟩ := each bucket List.mem_cons_self
    obtain ⟨met', found', decodes', perm', names'⟩ :=
      ih fun b h => each b (List.mem_cons_of_mem _ h)
    refine ⟨met ++ met', found ++ found', decodes.append decodes', perm.append perm', ?_⟩
    rw [List.flatMap_cons, List.map_append]
    exact names.append names'

/-- A tree stands for its entries wherever its nodes are stored. -/
theorem decodes_tree {node? : Digest → Option Node} (fits : entries.length < uncountable)
    (stored : ∀ n ∈ codec.nodes left entries, n ≠ .empty →
      n.digest ≠ Node.emptyDigest ∧ node? n.digest = some n) :
    ∃ met found, Decodes node? [(codec.topNode left entries).digest] met found ∧
      found.Perm entries ∧ met.Perm ((codec.nodes left entries).map Node.digest) := by
  induction left, entries using codec.tree_induction with
  | empty left =>
    rw [topNode_nil, nodes_nil]
    exact ⟨[Node.emptyDigest], [], .empty .done, .refl _, .refl _⟩
  | leaf left entries nonempty isLeaf =>
    rw [topNode_leaf nonempty isLeaf]
    rw [nodes_leaf nonempty isLeaf] at stored ⊢
    have notEmpty : leaf (deepest - left) entries ≠ .empty := by
      intro same
      exact nonempty (List.map_eq_nil_iff.mp (congrArg Node.links same))
    obtain ⟨named, there⟩ := stored _ List.mem_cons_self notEmpty
    refine ⟨_, _, .leaf named there (shape_leaf nonempty fits) .done, ?_, .refl _⟩
    rw [List.append_nil]
  | branch left entries deep ih =>
    have counted : ((codec.buckets (deepest - (left + 1)) entries).map
        fun bucket => (codec.topNode left bucket).digest).length = codec.fanout.toNat := by
      rw [List.length_map, length_buckets]
    rw [nodes_branch deep] at stored ⊢
    obtain ⟨met, found, decodes, perm, names⟩ := codec.decodes_buckets fun bucket isBucket =>
      ih bucket isBucket
        (Nat.lt_of_le_of_lt (codec.length_le_of_mem_buckets isBucket) fits)
        fun n h => stored n (List.mem_append_left _ (List.mem_flatMap.mpr ⟨bucket, isBucket, h⟩))
    have notEmpty : codec.topNode (left + 1) entries ≠ .empty := by
      intro same
      rw [topNode_branch deep] at same
      have := codec.two_le_fanout
      rw [List.map_eq_nil_iff.mp (congrArg Node.links same)] at counted
      simp at counted
      omega
    obtain ⟨named, there⟩ := stored _ (List.mem_append_right _ List.mem_cons_self) notEmpty
    refine ⟨(codec.topNode (left + 1) entries).digest :: met, found, ?_,
      perm.trans (codec.buckets_perm _ _), ?_⟩
    · refine .branch named there ?_ (by rwa [List.append_nil])
      rw [topNode_branch deep]
      exact shape_branch codec.two_le_fanout counted
    · -- Reading meets the top node first, and writing stores it last.
      rw [List.map_append, List.map_singleton]
      exact (names.cons _).trans (List.perm_append_singleton _ _).symm

/-! ## What is written -/

/-- The blocks of the pin set of some entries, and the block of the empty node, whose name is part
of the format. -/
def blocks (entries : List Entry) : Set Bytes :=
  { data | data ∈ Node.empty.encode :: (codec.written entries).map Node.encode }

theorem empty_mem_blocks (entries : List Entry) : Node.empty.encode ∈ codec.blocks entries :=
  List.mem_cons_self

theorem encode_mem_blocks {n : Node} (inside : n ∈ codec.written entries) :
    n.encode ∈ codec.blocks entries :=
  List.mem_cons_of_mem _ (List.mem_map_of_mem inside)

variable {known : Set Bytes} {s : ObjectStore}

/-- A node of a pin set that is stored can be read, and does not have the name of the empty node
unless it is that node. -/
theorem node?_of_mem_written (distinct : Distinct known) (isKnown : codec.blocks entries ⊆ known)
    (fits : (merged entries).length < uncountable) {n : Node} (inside : n ∈ codec.written entries)
    (stored : s.block? n.digest = some n.encode) (notEmpty : n ≠ .empty) :
    n.digest ≠ Node.emptyDigest ∧ s.node? n.digest = some n := by
  have decoded : Node.decode n.encode = .ok n := codec.decode_of_mem_nodes fits inside
  refine ⟨fun same => notEmpty ?_, Graph.node?_eq_some.mpr ⟨_, stored, decoded⟩⟩
  have encoded : n.encode = Node.empty.encode :=
    distinct (isKnown (codec.encode_mem_blocks inside)) (isKnown (codec.empty_mem_blocks _)) same
  have empty : Node.decode Node.empty.encode = .ok .empty :=
    Node.decode_encode ⟨by decide, nofun, by decide⟩
  rw [encoded, empty] at decoded
  exact (Except.ok.inj decoded).symm

/-- Wherever the nodes of a pin set are stored, the pin set stands for its entries. -/
theorem decodes_written (distinct : Distinct known) (isKnown : codec.blocks entries ⊆ known)
    (fits : (merged entries).length < uncountable)
    (stored : ∀ n ∈ codec.written entries, s.block? n.digest = some n.encode) :
    ∃ met found, Decodes s.node? [codec.top entries] met found ∧
      Multiset.ofEntries found = Multiset.ofEntries entries ∧
        met.Perm ((codec.written entries).map Node.digest) := by
  obtain ⟨met, found, decodes, perm, names⟩ := codec.decodes_tree fits
    fun n inside => codec.node?_of_mem_written distinct isKnown fits inside (stored n inside)
  exact ⟨met, found, decodes, Multiset.ofEntries_toList perm, names⟩

end Codec

/-! ## Reading back -/

variable {known : Set Bytes} {w w' v : World}

theorem answersIff_read {node? : Digest → Option Node} {top : Digest} {met : List Digest}
    {found : List Entry} (honest : v.conduct = .honest) (lacks : Lacks node? v.store)
    (decodes : Decodes node? [top] met found) :
    AnswersIff v (Present v.store met) (Multiset.ofEntries found, met) (read top) := by
  have tree := answersIff_readTree (r := ⟨∅, []⟩) honest lacks decodes
    ⟨List.nodup_nil, nofun, nofun⟩ (Nat.le_refl _)
  have answer : (Multiset.ofEntries found, met)
      = ((Reading.after ⟨∅, []⟩ met found).set,
        (Reading.after ⟨∅, []⟩ met found).recorded.reverse) := by
    simp [Reading.after, Multiset.ofEntries]
  rw [answer]
  exact .inspect_bind (.congr (and_true _).to_iff (tree.bind fun _ _ _ => .pure trivial))

theorem read_honest {top : Digest} {met : List Digest} {found : List Entry}
    (honest : v.conduct = .honest) (decodes : Decodes v.store.node? [top] met found) :
    ∃ v', read top v = (.done (Multiset.ofEntries found, met), v') ∧ World.Untouched v v' :=
  (answersIff_read honest (fun _ _ h => h) decodes).done decodes.present

/-- Every run of a codec that gives an answer has stored a pin set that is read back as the sums of
the counts, cut off at the largest count, as long as the nodes it reported are still there. -/
theorem read_of_write (codec : Codec) {entries : List Entry}
    (fits : (merged entries).length < uncountable) {top : Digest} {recorded : List Digest}
    (truthful : w.conduct.lies = [])
    (addressed : w.store.ContentAddressed)
    (distinct : Distinct (w.store.blocks ∪ codec.blocks entries))
    (wrote : codec.write entries w = (.done (top, recorded), w')) (honest : v.conduct = .honest)
    (kept : ∀ d ∈ recorded, ∀ data, w'.store.block? d = some data → v.store.block? d = some data) :
    ∃ set met v', read top v = (.done (set, met), v') ∧
      ∀ d, set[d]? = if total d entries = 0 then none
        else some (cutOff (total d entries)).toUInt64 := by
  have isKnown : codec.blocks entries ⊆ w.store.blocks ∪ codec.blocks entries :=
    Set.subset_union_right
  have sound : w.Sound (w.store.blocks ∪ codec.blocks entries) :=
    ⟨truthful, addressed, Set.subset_union_left⟩
  obtain ⟨answer, stored⟩ := (Codec.ensures_write distinct codec
    (fun n h => isKnown (codec.encode_mem_blocks h)) sound).promise wrote
  obtain ⟨rfl, rfl⟩ := Prod.mk.inj answer
  obtain ⟨met, found, decodes, sums, -⟩ := codec.decodes_written distinct isKnown fits
    fun n h => kept _ (List.mem_map_of_mem h) _ (stored n h)
  obtain ⟨v', run, -⟩ := read_honest honest decodes
  exact ⟨_, met, v', run, fun d => by rw [sums, Multiset.getElem?_ofEntries]⟩

/-- A codec with two buckets, and leaves of one entry. -/
def narrow : Codec := ⟨2, 1, Codec.standardSpread, by decide, by decide⟩

/-- Three digests, one of which is counted twice and one not at all. -/
def threeDigests : List Entry :=
  [(Sample.repeated 1, 3), (Sample.repeated 2, 0), (Sample.repeated 3, 7),
    (Sample.repeated 1, 0xffffffffffffffff)]

theorem isDone_write_threeDigests :
    (narrow.write threeDigests (World.fresh .inMemory ∅)).1.isDone = true := by
  decide +kernel

theorem distinct_threeDigests :
    Distinct (ObjectStore.inMemory.blocks ∪ narrow.blocks threeDigests) := by
  rw [ObjectStore.blocks_inMemory, Set.empty_union]
  exact distinct_of_pairwise (fun _ => id) (by decide +kernel)

/-- Entries that are split into buckets, written into an empty store and read back. -/
theorem read_of_write_threeDigests :
    ∃ top recorded w' set met v',
      narrow.write threeDigests (World.fresh .inMemory ∅) = (.done (top, recorded), w') ∧
      read top (World.fresh w'.store ∅) = (.done (set, met), v') ∧
      ∀ d, set[d]? = if total d threeDigests = 0 then none
        else some (cutOff (total d threeDigests)).toUInt64 := by
  obtain ⟨⟨top, recorded⟩, w', wrote⟩ := exists_done isDone_write_threeDigests
  obtain ⟨set, met, v', run, counts⟩ := read_of_write narrow (by decide) rfl
    ObjectStore.contentAddressed_inMemory distinct_threeDigests wrote
    (show (World.fresh w'.store ∅).conduct = .honest from rfl) fun _ _ _ h => h
  exact ⟨top, recorded, w', set, met, v', wrote, run, counts⟩

end PinnedStore.PinSet
