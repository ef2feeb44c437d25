import PinnedStore.Proofs.PinSet.RoundTrip

/-!
# Writing and reading collect the same nodes

Writing a pin set reports the nodes it is made of, and reading it reports the nodes met.  Writing
goes through the tree from below, and reading from above; so the two reports are in different
orders, but no node is in one of them more often than in the other.  An empty bucket counts every
time, although writing stores the empty node once only and reading does not read it at all.

Every node that is reported by writing is in the store then.  Nothing else matters for reading: the
same nodes are met wherever they are still there, whatever else the store has lost or gained, and by
which codec the set was written is not even known.

* `Codec.report_of_write`: what writing reports, and what it leaves in the store.
* `read_meets_written`: what reading meets is what writing has reported, in another order.
-/

namespace PinnedStore.PinSet

open Program

variable {w w' : World} {codec : Codec} {entries : List Entry} {top : Digest}
    {recorded : List Digest}

/-- A run that gives an answer has reported the nodes of the tree, and has left all of them
readable. -/
theorem Codec.report_of_write (truthful : w.conduct.lies = [])
    (addressed : w.store.ContentAddressed)
    (distinct : Distinct (w.store.blocks ∪ codec.blocks entries))
    (wrote : codec.write entries w = (.done (top, recorded), w')) :
    top = codec.top entries ∧ recorded = (codec.written entries).map Node.digest ∧
      ∀ n ∈ codec.written entries, w'.store.block? n.digest = some n.encode := by
  have isKnown : ∀ n ∈ codec.written entries, n.encode ∈ w.store.blocks ∪ codec.blocks entries :=
    fun n h => Or.inr (codec.encode_mem_blocks h)
  obtain ⟨answer, stored⟩ := (Codec.ensures_write distinct codec isKnown
    ⟨truthful, addressed, Set.subset_union_left⟩).promise wrote
  obtain ⟨named, reported⟩ := Prod.mk.inj answer
  exact ⟨named, reported, stored⟩

/-- Every node that a run of a codec has reported is in the store then, under its digest.  Wherever
these nodes are still there, honest storage reads the set, and every reading that gives an answer
has met the nodes reported, each of them as often as it was reported. -/
theorem read_meets_written (codec : Codec) {entries : List Entry}
    (fits : (merged entries).length < uncountable) {top : Digest} {recorded : List Digest}
    (truthful : w.conduct.lies = [])
    (addressed : w.store.ContentAddressed)
    (distinct : Distinct (w.store.blocks ∪ codec.blocks entries))
    (wrote : codec.write entries w = (.done (top, recorded), w')) :
    (∀ d ∈ recorded, ∃ data, w'.store.block? d = some data ∧ Digest.of data = d) ∧
    ∀ v : World,
      (∀ d ∈ recorded, ∀ data, w'.store.block? d = some data → v.store.block? d = some data) →
      (v.conduct = .honest → ∃ set met v', read top v = (.done (set, met), v')) ∧
      (v.conduct.lies = [] → ∀ set met v', read top v = (.done (set, met), v') →
        met.Perm recorded) := by
  obtain ⟨rfl, rfl, stored⟩ := Codec.report_of_write truthful addressed distinct wrote
  refine ⟨fun d reported => ?_, fun v kept => ?_⟩
  · obtain ⟨n, isNode, rfl⟩ := List.mem_map.mp reported
    exact ⟨n.encode, stored n isNode, rfl⟩
  · obtain ⟨met, found, decodes, -, names⟩ := codec.decodes_written distinct Set.subset_union_right
      fits fun n isNode => kept _ (List.mem_map_of_mem isNode) _ (stored n isNode)
    refine ⟨fun honest => ?_, fun truthful set met' v' run => ?_⟩
    · obtain ⟨v', run, -⟩ := read_honest honest decodes
      exact ⟨_, met, v', run⟩
    · obtain ⟨found', decodes', -⟩ := decodes_of_read truthful run
      obtain ⟨rfl, -⟩ := decodes'.unique decodes
      exact names

/-- Five nodes, one of them an empty bucket, are written into an empty store and met again. -/
theorem read_meets_written_threeDigests : ∃ top recorded w' set met v',
    narrow.write threeDigests (World.fresh .inMemory ∅) = (.done (top, recorded), w') ∧
    read top (World.fresh w'.store ∅) = (.done (set, met), v') ∧ met.Perm recorded := by
  obtain ⟨⟨top, recorded⟩, w', wrote⟩ := exists_done isDone_write_threeDigests
  obtain ⟨-, meets⟩ :=
    read_meets_written narrow (by decide) rfl ObjectStore.contentAddressed_inMemory
    distinct_threeDigests wrote
  obtain ⟨answers, same⟩ := meets (World.fresh w'.store ∅) fun _ _ _ there => there
  obtain ⟨set, met, v', run⟩ := answers rfl
  exact ⟨top, recorded, w', set, met, v', wrote, run, same rfl set met v' run⟩

end PinnedStore.PinSet
