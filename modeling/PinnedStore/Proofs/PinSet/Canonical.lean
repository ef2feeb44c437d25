import PinnedStore.Proofs.PinSet.Tree

/-!
# One mapping, one pin set

A pin set is named by what it counts.  Lists of entries may come in any order, with counts in
several parts and with entries that count nothing.  If every digest comes to the same sum in two of
them, cut off at the largest count, then writing the one or the other is the same program: it makes
the same calls, reports the same names, and fails alike.

The converse takes digests that do not collide.  Looking up the nodes of two trees by their names,
reading a tree that has one name finds one list of entries, so the two trees hold the same entries.
No node has to be stored for that: it is enough that the names tell the nodes apart.

* `Codec.write_congr`: equal sums are written alike.
* `exists_lookup`: nodes that their names tell apart can be looked up.
* `Codec.perm_of_top_eq`: trees of one name hold the same entries.
* `Codec.write_canonical`: pin sets have the same name just where they count the same.
-/

namespace PinnedStore.PinSet

open Program

variable {entries entries' : List Entry}

/-- Each digest has the same sum in both lists, if sums are cut off at the largest count. -/
def SameTotals (entries entries' : List Entry) : Prop :=
  ∀ d, cutOff (total d entries) = cutOff (total d entries')

theorem Multiset.ofEntries_congr (same : SameTotals entries entries') :
    ofEntries entries = ofEntries entries' := by
  refine (positive_ofEntries _).ext (positive_ofEntries _) fun d => ?_
  rw [count_ofEntries, count_ofEntries, same d]

theorem total_merged (d : Digest) (entries : List Entry) :
    total d (merged entries) = cutOff (total d entries) := by
  rw [merged, Multiset.total_toList, Multiset.count_ofEntries]

/-- Nodes that are read back as they are written, and whose names tell them apart, can be looked up
by these names. -/
theorem exists_lookup {ns : List Node} (distinct : Distinct { data | data ∈ ns.map Node.encode })
    (decoded : ∀ n ∈ ns, Node.decode n.encode = .ok n) :
    ∃ node? : Digest → Option Node, ∀ n ∈ ns, node? n.digest = some n := by
  refine ⟨fun d => ns.find? fun n => n.digest = d, fun n inside => ?_⟩
  have isSome : (ns.find? fun m => m.digest = n.digest).isSome :=
    List.find?_isSome.mpr ⟨n, inside, decide_eq_true rfl⟩
  obtain ⟨m, found⟩ := Option.isSome_iff_exists.mp isSome
  have named : m.digest = n.digest := by simpa using List.find?_some found
  have inside' : m ∈ ns := List.mem_of_find?_eq_some found
  have encoded : m.encode = n.encode :=
    distinct (List.mem_map_of_mem inside') (List.mem_map_of_mem inside) named
  have read := decoded m inside'
  rw [encoded, decoded n inside] at read
  exact found.trans (congrArg some (Except.ok.inj read).symm)

namespace Codec

variable (codec codec' : Codec)

/-- Equal sums are written alike. -/
theorem write_congr (same : SameTotals entries entries') :
    codec.write entries = codec.write entries' := by
  rw [write, write, Multiset.ofEntries_congr same]

/-- A tree stands for its entries wherever its nodes and the empty node can be looked up. -/
theorem decodes_lookup {node? : Digest → Option Node} (fits : (merged entries).length < uncountable)
    (empty : node? Node.emptyDigest = some .empty)
    (there : ∀ n ∈ codec.written entries, node? n.digest = some n) :
    ∃ met found, Decodes node? [codec.top entries] met found ∧ found.Perm (merged entries) := by
  have named : ∀ n ∈ codec.written entries, n ≠ .empty →
      n.digest ≠ Node.emptyDigest ∧ node? n.digest = some n := by
    refine fun n inside notEmpty => ⟨fun same => notEmpty ?_, there n inside⟩
    have found := there n inside
    rw [same, empty] at found
    exact (Option.some.inj found).symm
  obtain ⟨met, found, decodes, perm, -⟩ := codec.decodes_tree fits named
  exact ⟨met, found, decodes, perm⟩

/-- Trees of one name hold the same entries. -/
theorem perm_of_top_eq (distinct : Distinct (codec.blocks entries ∪ codec'.blocks entries'))
    (fits : (merged entries).length < uncountable) (fits' : (merged entries').length < uncountable)
    (same : codec.top entries = codec'.top entries') : (merged entries).Perm (merged entries') := by
  have distinct' : Distinct { data | data ∈
      (.empty :: (codec.written entries ++ codec'.written entries')).map Node.encode } := by
    refine distinct.mono ?_
    rintro _ inside
    obtain ⟨n, isNode, rfl⟩ := List.mem_map.mp inside
    rcases List.mem_cons.mp isNode with rfl | isNode
    · exact Or.inl (codec.empty_mem_blocks entries)
    · exact (List.mem_append.mp isNode).imp codec.encode_mem_blocks codec'.encode_mem_blocks
  obtain ⟨node?, there⟩ := exists_lookup distinct' fun n inside => by
    rcases List.mem_cons.mp inside with rfl | inside
    · exact Node.decode_encode ⟨by decide, nofun, by decide⟩
    · exact (List.mem_append.mp inside).elim (codec.decode_of_mem_nodes fits)
        (codec'.decode_of_mem_nodes fits')
  have empty : node? Node.emptyDigest = some .empty := there .empty List.mem_cons_self
  obtain ⟨met, found, decodes, perm⟩ := codec.decodes_lookup fits empty fun n inside =>
    there n (List.mem_cons_of_mem _ (List.mem_append_left _ inside))
  obtain ⟨met', found', decodes', perm'⟩ := codec'.decodes_lookup fits' empty fun n inside =>
    there n (List.mem_cons_of_mem _ (List.mem_append_right _ inside))
  rw [same] at decodes
  obtain ⟨-, rfl⟩ := decodes.unique decodes'
  exact perm.symm.trans perm'

/-- Lists in which every digest has the same sum are written alike, in every world and whatever
becomes of it: the answer, the names reported and all that is left in the store are the same.  Lists
in which the sums of some digest differ never get the same name, in whatever worlds and by whatever
codecs they are written, as long as no two blocks of the two pin sets have the same digest. -/
theorem write_canonical (codec : Codec) (entries entries' : List Entry) :
    (SameTotals entries entries' → ∀ w, codec.write entries w = codec.write entries' w) ∧
    ∀ codec' : Codec, Distinct (codec.blocks entries ∪ codec'.blocks entries') →
      (merged entries).length < uncountable → (merged entries').length < uncountable →
      ¬ SameTotals entries entries' → ∀ w v top top' recorded recorded' w' v',
        codec.write entries w = (.done (top, recorded), w') →
        codec'.write entries' v = (.done (top', recorded'), v') → top ≠ top' := by
  refine ⟨fun same w => congrFun (codec.write_congr same) w, ?_⟩
  intro codec' distinct fits fits' differ w v top top' recorded recorded' w' v' wrote wrote' same
  obtain ⟨named, -⟩ := Prod.mk.inj (codec.answer_of_write wrote)
  obtain ⟨named', -⟩ := Prod.mk.inj (codec'.answer_of_write wrote')
  have tops : codec.top entries = codec'.top entries' := by
    rw [top_eq, top_eq, ← named, ← named', same]
  refine differ fun d => ?_
  rw [← total_merged, ← total_merged]
  exact total_perm (codec.perm_of_top_eq codec' distinct fits fits' tops)

/-- The same digests in another order, with counts parted in another way. -/
def otherParts : List Entry :=
  [(Sample.repeated 3, 4), (Sample.repeated 1, 0xffffffffffffffff), (Sample.repeated 3, 3),
    (Sample.repeated 1, 0xfffffffffffffffe), (Sample.repeated 4, 0)]

/-- One count less for one of the digests. -/
def oneLess : List Entry := [(Sample.repeated 1, 0xffffffffffffffff), (Sample.repeated 3, 6)]

theorem sameTotals_otherParts : SameTotals threeDigests otherParts := by
  intro d
  simp only [threeDigests, otherParts, total_cons, total_nil]
  split_ifs <;> decide

theorem not_sameTotals_oneLess : ¬ SameTotals threeDigests oneLess :=
  fun same => absurd (same (Sample.repeated 3)) (by decide)

theorem distinct_oneLess : Distinct (narrow.blocks threeDigests ∪ narrow.blocks oneLess) :=
  distinct_of_pairwise (fun _ inside => List.mem_append.mpr inside) (by decide +kernel)

/-- Two lists that come to the same counts, and two that do not. -/
theorem write_canonical_threeDigests :
    (∀ w, narrow.write threeDigests w = narrow.write otherParts w) ∧
      ∃ top top' recorded recorded' w' v',
        narrow.write threeDigests (World.fresh .inMemory ∅) = (.done (top, recorded), w') ∧
        narrow.write oneLess (World.fresh .inMemory ∅) = (.done (top', recorded'), v') ∧
        top ≠ top' := by
  refine ⟨(write_canonical narrow threeDigests otherParts).1 sameTotals_otherParts, ?_⟩
  obtain ⟨w', wrote⟩ := narrow.write_done (w := World.fresh .inMemory ∅) rfl trivial threeDigests
  obtain ⟨v', wrote'⟩ := narrow.write_done (w := World.fresh .inMemory ∅) rfl trivial oneLess
  refine ⟨_, _, _, _, w', v', wrote, wrote', ?_⟩
  exact (write_canonical narrow threeDigests oneLess).2 narrow distinct_oneLess (by decide)
    (by decide)
    not_sameTotals_oneLess _ _ _ _ _ _ _ _ wrote wrote'

end Codec

end PinnedStore.PinSet
