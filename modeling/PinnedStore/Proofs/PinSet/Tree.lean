import PinnedStore.Proofs.PinSet.RoundTrip

/-!
# The tree that a codec writes

What a pin set looks like can be said without the machine that writes it.  No entries make the empty
node, few entries or entries deep down make a leaf, and any others are parted by the hash of the
level into as many buckets as the codec has, each of which is a tree of the next level.  The machine
works on arrays of buckets and on lists of work and results; here it is shown to write just this
tree.

Every node that is written is the tree of some part of the entries, and the parts are found by
following the buckets down.  They are sublists of the whole.  So all leaves are in ascending order,
since the entries are sorted once, before the work begins; and the empty node is only written for a
part without entries.

* `ascending_merged`, `mem_merged`: the entries of a pin set are sorted, with one count for each
  digest.
* `Codec.tree`: the tree of some entries from a level on.
* `Codec.buckets_eq`, `Codec.topNode_eq`: the buckets of the machine, and the tops of its trees.
* `Codec.Subtree`: the parts of the entries that trees are made of.
* `Codec.mem_nodes_iff`: the nodes that are written are the trees of the parts.
* `Codec.run_tree`, `Codec.write_done`: the machine is left with the tree, and writing answers with
  it.
* `Codec.write_is_tree`: what writing a pin set does.
-/

namespace PinnedStore.PinSet

open Program

variable {entries part : List Entry} {level level' left : Nat}

/-! ## Sorted entries -/

/-- Digests in ascending order, each of them once. -/
def Ascending (entries : List Entry) : Prop := entries.Pairwise fun a b => a.1 < b.1

theorem ascending_merged (entries : List Entry) : Ascending (merged entries) :=
  Std.ExtTreeMap.ordered_keys_toList

theorem mem_merged {d : Digest} {c : UInt64} : (d, c) ∈ merged entries ↔
    total d entries ≠ 0 ∧ c = (cutOff (total d entries)).toUInt64 := by
  rw [merged, Std.ExtTreeMap.mem_toList_iff_getElem?_eq_some, Multiset.getElem?_ofEntries]
  by_cases none : total d entries = 0
  · simp [none]
  · simp [none, eq_comm]

namespace Codec

variable (codec : Codec)

/-! ## The tree -/

/-- The entries of a bucket. -/
def bucketOf (level : Nat) (entries : List Entry) (i : Nat) : List Entry :=
  entries.filter fun e => codec.bucket level e.1 = i

/-- The tree of some entries from a level on. -/
def tree (level : Nat) (entries : List Entry) : Node :=
  if entries = [] then .empty
  else if _isLeaf : entries.length ≤ codec.maxItems ∨ deepest ≤ level then leaf level entries
  else branch codec.fanout level ((List.range codec.fanout.toNat).map fun i =>
    (tree (level + 1) (codec.bucketOf level entries i)).digest)
termination_by deepest - level

theorem isLeaf_iff : codec.isLeaf level entries = true ↔
    entries.length ≤ codec.maxItems ∨ deepest ≤ level := by
  simp [isLeaf]

theorem tree_nil (level : Nat) : codec.tree level [] = .empty := by
  rw [tree, if_pos rfl]

theorem tree_leaf (nonempty : entries ≠ []) (isLeaf : codec.isLeaf level entries = true) :
    codec.tree level entries = leaf level entries := by
  rw [tree, if_neg nonempty, dif_pos (codec.isLeaf_iff.mp isLeaf)]

theorem tree_branch (deep : ¬ codec.isLeaf level entries = true) : codec.tree level entries
    = branch codec.fanout level ((List.range codec.fanout.toNat).map fun i =>
      (codec.tree (level + 1) (codec.bucketOf level entries i)).digest) := by
  have nonempty : entries ≠ [] := by
    rintro rfl
    exact deep (codec.isLeaf_iff.mpr (Or.inl (Nat.zero_le _)))
  rw [tree, if_neg nonempty, dif_neg fun isLeaf => deep (codec.isLeaf_iff.mpr isLeaf)]

/-- Only no entries make the empty node. -/
theorem tree_eq_empty : codec.tree level entries = .empty ↔ entries = [] := by
  refine ⟨fun same => ?_, fun none => none ▸ codec.tree_nil level⟩
  by_contra nonempty
  by_cases isLeaf : codec.isLeaf level entries = true
  · rw [codec.tree_leaf nonempty isLeaf] at same
    exact nonempty (List.map_eq_nil_iff.mp (congrArg Node.links same))
  · rw [codec.tree_branch isLeaf] at same
    have none := congrArg List.length (List.map_eq_nil_iff.mp (congrArg Node.links same))
    have several := codec.two_le_fanout
    rw [List.length_map, List.length_range, List.length_nil] at none
    omega

/-! ## The buckets and trees of the machine -/

theorem bucketOf_cons (level : Nat) (e : Entry) (rest : List Entry) (i : Nat) :
    codec.bucketOf level (e :: rest) i
      = if codec.bucket level e.1 = i then e :: codec.bucketOf level rest i
        else codec.bucketOf level rest i := by
  rw [bucketOf, List.filter_cons]
  simp only [decide_eq_true_eq]
  rfl

/-- The buckets of the machine are those of the hash, in order. -/
theorem buckets_eq (level : Nat) (entries : List Entry) : codec.buckets level entries
    = (List.range codec.fanout.toNat).map (codec.bucketOf level entries) := by
  induction entries with
  | nil =>
    refine List.ext_getElem (by simp) fun i inside inside' => ?_
    rw [List.getElem_map]
    simp [buckets, bucketOf]
  | cons e rest ih =>
    rw [buckets_cons, ih]
    refine List.ext_getElem (by simp) fun i inside inside' => ?_
    rw [List.getElem_modify, List.getElem_map, List.getElem_map, List.getElem_range, bucketOf_cons]

theorem topNode_eq (within : left ≤ deepest) (entries : List Entry) :
    codec.topNode left entries = codec.tree (deepest - left) entries := by
  induction left, entries using codec.tree_induction with
  | empty left => rw [topNode_nil, tree_nil]
  | leaf left entries nonempty isLeaf =>
    rw [topNode_leaf nonempty isLeaf, codec.tree_leaf nonempty isLeaf]
  | branch left entries deep ih =>
    have below : deepest - (left + 1) + 1 = deepest - left := by omega
    rw [topNode_branch deep, codec.tree_branch deep, below]
    rw [buckets_eq] at ih ⊢
    rw [List.map_map]
    refine congrArg _ (List.map_congr_left fun i inside => congrArg Node.digest ?_)
    exact ih _ (List.mem_map_of_mem inside) (by omega)

theorem top_eq (entries : List Entry) :
    codec.top entries = (codec.tree 0 (merged entries)).digest :=
  congrArg Node.digest (codec.topNode_eq (Nat.le_refl _) (merged entries))

/-! ## The parts that trees are made of -/

/-- A tree is made of the trees of its buckets, and so on down. -/
inductive Subtree : (level : Nat) → (entries : List Entry) → (level' : Nat) →
    (part : List Entry) → Prop
  | whole {level : Nat} {entries : List Entry} : Subtree level entries level entries
  | bucket {level level' : Nat} {entries part : List Entry} {i : Nat}
    (deep : ¬ codec.isLeaf level entries = true) (inside : i < codec.fanout.toNat)
    (below : Subtree (level + 1) (codec.bucketOf level entries i) level' part) :
    Subtree level entries level' part

theorem Subtree.sublist (below : codec.Subtree level entries level' part) :
    part.Sublist entries := by
  induction below with
  | whole => exact List.Sublist.refl _
  | bucket _ _ _ ih => exact ih.trans List.filter_sublist

/-- Where entries are not split, there is no other tree. -/
theorem Subtree.eq_of_isLeaf (isLeaf : codec.isLeaf level entries = true)
    (below : codec.Subtree level entries level' part) : level' = level ∧ part = entries := by
  cases below with
  | whole => exact ⟨rfl, rfl⟩
  | bucket deep => exact absurd isLeaf deep

/-- The nodes that are written are the trees of the parts. -/
theorem mem_nodes_iff (within : left ≤ deepest) {n : Node} : n ∈ codec.nodes left entries ↔
    ∃ level part, codec.Subtree (deepest - left) entries level part ∧
      n = codec.tree level part := by
  induction left, entries using codec.tree_induction with
  | empty left =>
    have isLeaf : codec.isLeaf (deepest - left) [] = true :=
      codec.isLeaf_iff.mpr (Or.inl (Nat.zero_le _))
    rw [nodes_nil, List.mem_singleton]
    refine ⟨fun same => ⟨_, [], .whole, by rw [same, tree_nil]⟩, ?_⟩
    rintro ⟨level, part, below, rfl⟩
    obtain ⟨rfl, rfl⟩ := below.eq_of_isLeaf codec isLeaf
    exact codec.tree_nil _
  | leaf left entries nonempty isLeaf =>
    rw [nodes_leaf nonempty isLeaf, List.mem_singleton, ← codec.tree_leaf nonempty isLeaf]
    refine ⟨fun same => ⟨_, entries, .whole, same⟩, ?_⟩
    rintro ⟨level, part, below, rfl⟩
    obtain ⟨rfl, rfl⟩ := below.eq_of_isLeaf codec isLeaf
    rfl
  | branch left entries deep ih =>
    have below : deepest - (left + 1) + 1 = deepest - left := by omega
    rw [nodes_branch deep, List.mem_append, List.mem_flatMap, List.mem_singleton,
      codec.topNode_eq within]
    rw [buckets_eq] at ih ⊢
    constructor
    · rintro (⟨bucket, isBucket, inside⟩ | rfl)
      · obtain ⟨level, part, reached, same⟩ := (ih bucket isBucket (by omega)).mp inside
        obtain ⟨i, isIndex, rfl⟩ := List.mem_map.mp isBucket
        exact ⟨level, part, .bucket deep (List.mem_range.mp isIndex) (below ▸ reached), same⟩
      · exact ⟨_, entries, .whole, rfl⟩
    · rintro ⟨level, part, reached, rfl⟩
      cases reached with
      | whole => exact Or.inr rfl
      | @bucket _ _ _ _ i _ inside reached =>
        have isBucket := List.mem_map_of_mem (f := codec.bucketOf (deepest - (left + 1)) entries)
          (List.mem_range.mpr inside)
        exact Or.inl ⟨_, isBucket,
          (ih _ isBucket (by omega)).mpr ⟨level, part, below ▸ reached, rfl⟩⟩

theorem mem_written_iff {n : Node} : n ∈ codec.written entries ↔
    ∃ level part, codec.Subtree 0 (merged entries) level part ∧ n = codec.tree level part :=
  codec.mem_nodes_iff (Nat.le_refl _)

/-! ## Writing the tree -/

/-- The machine stores the nodes one after the other, and is left with the name of the tree. -/
theorem run_tree (entries : List Entry) : codec.run .start [.build (merged entries) 0] = do
    forEach (additions false [] (codec.written entries)) Addition.perform
    return ⟨[(codec.tree 0 (merged entries)).digest],
      ((codec.written entries).map Node.digest).reverse,
      decide (.empty ∈ codec.written entries)⟩ := by
  have gained : Progress.start.gain [codec.top entries] (codec.written entries)
      = ⟨[codec.top entries], ((codec.written entries).map Node.digest).reverse,
        decide (.empty ∈ codec.written entries)⟩ := by
    simp [Progress.gain, Progress.start]
  rw [← top_eq, ← gained]
  exact codec.run_eq entries

/-- No storage makes it answer with another tree. -/
theorem answer_of_write {w w' : World} {answer : Digest × List Digest}
    (wrote : codec.write entries w = (.done answer, w')) :
    answer = ((codec.tree 0 (merged entries)).digest, (codec.written entries).map Node.digest) := by
  obtain ⟨bs, -, stores⟩ := codec.stores_write entries
  rw [stores.answer wrote, top_eq]

/-- Where storage does not fail, the tree is written. -/
theorem write_done {w : World} (honest : w.conduct = .honest) (usable : w.store.Usable)
    (entries : List Entry) :
    ∃ w', codec.write entries w
      = (.done ((codec.tree 0 (merged entries)).digest, (codec.written entries).map Node.digest),
        w') := by
  obtain ⟨bs, -, stores⟩ := codec.stores_write entries
  obtain ⟨s, kept, -⟩ := usable.keepAll bs
  have truthful := World.truthful_of_honest honest
  have run := stores.run truthful
  rcases ended : codec.write entries w with ⟨outcome, w'⟩
  rw [ended] at run
  cases run with
  | done =>
    rw [← top_eq]
    exact ⟨w', rfl⟩
  | stopped _ _ _ stuck _ =>
    obtain ⟨f, failed⟩ := stuck honest
    cases kept.symm.trans failed

/-- The empty node is only stored for a part without entries. -/
theorem exists_subtree_nil
    (stored : .empty ∈ (additions false [] (codec.written entries)).map Addition.node) :
    ∃ level, codec.Subtree 0 (merged entries) level [] := by
  obtain ⟨level, part, below, same⟩ := codec.mem_written_iff.mp (mem_additions.mp stored).1
  rw [codec.tree_eq_empty.mp same.symm] at below
  exact ⟨level, below⟩

/-- Writing entries as a pin set comes to the tree of the merged entries, which are in ascending
order.  The machine does nothing but store the nodes that are still to be stored, one after the
other, and is left with one result; so it stops or fails only where storage does, and never for want
of results to join.  Where storage does not fail, the answer is the name of the tree, and so is any
other answer.  The nodes reported are the trees of the parts, and the entries of every part are in
ascending order.  The empty node is stored once at most, and only for a part without entries.  No
entry is put in a bucket that is not there. -/
theorem write_is_tree (codec : Codec) (entries : List Entry) :
    (Ascending (merged entries) ∧ ∀ d c, (d, c) ∈ merged entries ↔
      total d entries ≠ 0 ∧ c = (cutOff (total d entries)).toUInt64) ∧
    (codec.run .start [.build (merged entries) 0] = do
      forEach (additions false [] (codec.written entries)) Addition.perform
      return ⟨[(codec.tree 0 (merged entries)).digest],
        ((codec.written entries).map Node.digest).reverse, decide (.empty ∈ codec.written entries)⟩) ∧
    (∀ w : World, w.conduct = .honest → w.store.Usable → ∃ w', codec.write entries w
      = (.done ((codec.tree 0 (merged entries)).digest, (codec.written entries).map Node.digest), w')) ∧
    (∀ w answer w', codec.write entries w = (.done answer, w') →
      answer = ((codec.tree 0 (merged entries)).digest, (codec.written entries).map Node.digest)) ∧
    (∀ n, n ∈ codec.written entries ↔
      ∃ level part, codec.Subtree 0 (merged entries) level part ∧ n = codec.tree level part) ∧
    (∀ level part, codec.Subtree 0 (merged entries) level part → Ascending part) ∧
    ((additions false [] (codec.written entries)).map Addition.node).count .empty ≤ 1 ∧
    (.empty ∈ (additions false [] (codec.written entries)).map Addition.node →
      ∃ level, codec.Subtree 0 (merged entries) level []) ∧
    ∀ level d, codec.bucket level d < codec.fanout.toNat := by
  have ascending : ∀ level part, codec.Subtree 0 (merged entries) level part → Ascending part :=
    fun _ _ below => (ascending_merged entries).sublist (below.sublist codec)
  have counted : ∀ d c, (d, c) ∈ merged entries ↔
      total d entries ≠ 0 ∧ c = (cutOff (total d entries)).toUInt64 := fun _ _ => mem_merged
  exact ⟨⟨ascending_merged entries, counted⟩, codec.run_tree entries,
    fun w honest usable => codec.write_done honest usable entries,
    fun w answer w' wrote => codec.answer_of_write wrote, fun n => codec.mem_written_iff, ascending,
    count_empty_additions _ _ _, codec.exists_subtree_nil, codec.bucket_lt⟩

/-- The codec that puts everything into the first of its two buckets. -/
def lopsided : Codec := { narrow with spread := fun _ _ => 0 }

/-- Entries that are never parted are split at every level above the deepest, each time with a
bucket that stays empty.  Of the seventeen nodes ten are stored. -/
theorem write_is_tree_lopsided :
    (∃ w', lopsided.write threeDigests (World.fresh .inMemory ∅)
      = (.done ((lopsided.tree 0 (merged threeDigests)).digest,
        (lopsided.written threeDigests).map Node.digest), w')) ∧
      (lopsided.written threeDigests).length = 17 ∧
      (additions false [] (lopsided.written threeDigests)).length = 10 ∧
      ((additions false [] (lopsided.written threeDigests)).map Addition.node).count .empty ≤ 1 ∧
      ∃ level, lopsided.Subtree 0 (merged threeDigests) level [] := by
  have stored :
      .empty ∈ (additions false [] (lopsided.written threeDigests)).map Addition.node := by
    decide +kernel
  obtain ⟨-, -, done, -, -, -, once, fromEmpty, -⟩ := write_is_tree lopsided threeDigests
  exact ⟨done (World.fresh .inMemory ∅) rfl trivial, by decide +kernel, by decide +kernel, once,
    fromEmpty stored⟩

end Codec

end PinnedStore.PinSet
