import PinnedStore.Proofs.Pin.Flush

/-!
# Loading a damaged record

Blocks can get lost.  If one of them was a node of the record in force, loading must not take what
is left of the record for the whole of it: pins that are forgotten are blocks that the next
collection removes.

A record is read as a tree, and every node of it is asked for, except that a link to the empty node
is known to lead to no entries and is not followed.  So loading notices the loss of any node of the
record but the empty one, which may be lost without harm.  The root is the one node that is always
read; it has links, and so it is never the empty node.

* `ObjectStore.Loses`: some blocks have been lost, and nothing else has happened.
* `Pin.recordRoot_ne_empty`: the root of a record is not the empty node.
* `Pin.load_of_lost`: what loading finds after blocks have been lost.
-/

namespace PinnedStore

namespace ObjectStore

/-- Some blocks may have been lost, and all others can be read as before. -/
def Loses (s s' : ObjectStore) : Prop :=
  ∀ d, s'.block? d = s.block? d ∨ s'.block? d = none

variable {s s' : ObjectStore}

instance : IsPreorder ObjectStore Loses where
  refl _ _ := Or.inl rfl
  trans s s' s'' first second := by
    intro d
    rcases second d with same | lost
    · rw [same]
      exact first d
    · exact Or.inr lost

/-- Removing a block loses a block. -/
theorem loses_delete {d : Digest} (h : s.delete (BlockPath.write s.features d) = .ok s') :
    Loses s s' := by
  intro d'
  rw [block?_delete h]
  by_cases same : d' = d
  · exact Or.inr (if_pos same)
  · exact Or.inl (if_neg same)

theorem Loses.block? (loses : Loses s s') {d : Digest} {data : Bytes}
    (h : s'.block? d = some data) : s.block? d = some data := by
  rcases loses d with same | lost
  · exact same ▸ h
  · cases lost.symm.trans h

/-- What is left after a loss can be read as before. -/
theorem Loses.lacks (loses : Loses s s') : PinSet.Lacks s.node? s' :=
  fun _ _ => Graph.node?_mono fun _ => loses.block?

end ObjectStore

namespace Pin

open Program PinSet

variable {known : Set Bytes} {w w' v : World} {codec : Codec} {pins : Pins} {root : Digest}

/-- The root of a record has links, and the empty node has none. -/
theorem recordRoot_ne_empty (distinct : Distinct known)
    (isKnown : recordBlocks codec pins ⊆ known) :
    (recordRoot codec pins).digest ≠ Node.emptyDigest := by
  intro same
  have isRoot : (recordRoot codec pins).encode ∈ known :=
    isKnown (encode_mem_recordBlocks List.mem_cons_self)
  have alike : (recordRoot codec pins).encode = Node.empty.encode :=
    distinct isRoot (isKnown empty_mem_recordBlocks) same
  have decoded : Node.decode Node.empty.encode = .ok (recordRoot codec pins) := by
    rw [← alike]
    exact decode_rootNode _ _
  have empty : Node.decode Node.empty.encode = .ok Node.empty := by decide
  cases decoded.symm.trans empty

/-- Of a record that has been stored, all nodes can be read after a loss if all blocks of it are
there, apart from the empty node. -/
theorem complete_iff_blocks (record : Record w.store.node? root pins)
    (named : root ≠ Node.emptyDigest) (lost : ObjectStore.Loses w.store v.store) :
    Complete v.store root pins ↔
      ∀ d ∈ pins.internal, d ≠ Node.emptyDigest → ∃ data, v.store.block? d = some data := by
  constructor
  · rintro ⟨-, nodes⟩ d inside notEmpty
    obtain ⟨n, readable⟩ := nodes d inside notEmpty
    obtain ⟨data, there, -⟩ := Graph.node?_eq_some.mp readable
    exact ⟨data, there⟩
  · intro blocks
    have nodes : ∀ d ∈ pins.internal, d ≠ Node.emptyDigest → ∃ n, v.store.node? d = some n := by
      intro d inside notEmpty
      obtain ⟨data, there⟩ := blocks d inside notEmpty
      obtain ⟨n, readable⟩ := record.complete.nodes d inside notEmpty
      obtain ⟨data', there', decoded⟩ := Graph.node?_eq_some.mp readable
      -- What is still there has not been altered, and so it is read as before.
      have same : data' = data := Option.some.inj (there'.symm.trans (lost.block? there))
      exact ⟨n, Graph.node?_eq_some.mpr ⟨data, there, same ▸ decoded⟩⟩
    exact ⟨nodes root record.root_mem named, nodes⟩

/-- After a flush and the loss of any blocks, loading gives an answer if and only if all nodes of
the record are still there, apart from the empty node; and then it takes back the pins as they were.
Otherwise the record is said to be corrupt. -/
theorem load_of_lost (codec : Codec) {w w' v : World} {root : Digest} (timeout : Nat)
    (truthful : w.conduct.lies = []) (addressed : w.store.ContentAddressed)
    (distinct : Distinct (blocksOfFlush codec w)) (few : Countable w.pins)
    (flushed : flush codec w = (.done root, w')) (lost : ObjectStore.Loses w'.store v.store)
    (records : v.records = w'.records) (honest : v.conduct = .honest) :
    ((∃ v', load timeout v = (.done (), v')) ↔
      ∀ d ∈ w'.pins.internal, d ≠ Node.emptyDigest → ∃ data, v.store.block? d = some data) ∧
    (∀ v', load timeout v = (.done (), v') →
      v'.pins.direct = w.pins.direct ∧ v'.pins.recursive = w.pins.recursive ∧
        v'.pins.internal = w'.pins.internal) ∧
    ((¬ ∀ d ∈ w'.pins.internal, d ≠ Node.emptyDigest → ∃ data, v.store.block? d = some data) →
      ∃ fault v', load timeout v = (.failed (.corruptRecord fault), v')) := by
  have isKnown : recordBlocks codec w.pins ⊆ blocksOfFlush codec w := Set.subset_union_right
  obtain ⟨committed, rfl, taken⟩ :=
    committed_of_flush distinct isKnown (sound_blocksOfFlush truthful addressed) flushed
  have record := committed.record distinct isKnown few
  have pointed : pointer? v.records = some (recordRoot codec w.pins).digest.bytes := by
    rw [records]
    exact committed.pointer
  rw [taken, ← complete_iff_blocks record (recordRoot_ne_empty distinct isKnown) lost]
  rcases load_cases timeout honest pointed lost.lacks record with
    ⟨complete, v₁, loaded, pins, -⟩ | ⟨not, fault, v₁, failed⟩
  · refine ⟨⟨fun _ => complete, fun _ => ⟨v₁, loaded⟩⟩, ?_, fun not => absurd complete not⟩
    intro v' loaded'
    cases loaded.symm.trans loaded'
    rw [pins]
    exact ⟨rfl, rfl, rfl⟩
  · refine ⟨⟨?_, fun complete => absurd complete not⟩, ?_, fun _ => ⟨fault, v₁, failed⟩⟩
    · rintro ⟨v', loaded⟩
      cases failed.symm.trans loaded
    · intro v' loaded
      cases failed.symm.trans loaded

/-- Pins that have been written down, and the loss of the root of their record. -/
theorem load_of_lost_root : ∃ root w' s, flush narrow firstWorld = (.done root, w') ∧
    w'.store.delete (BlockPath.write w'.store.features root) = .ok s ∧
      ∀ timeout, ∃ fault v',
        load timeout (World.fresh s w'.records) = (.failed (.corruptRecord fault), v') := by
  obtain ⟨root, w', flushed⟩ := exists_done isDone_flush_firstWorld
  have distinct : Distinct (blocksOfFlush narrow firstWorld) := by
    rw [blocksOfFlush, show firstWorld.store.blocks = ∅ from ObjectStore.blocks_inMemory,
      Set.empty_union]
    exact distinct_first_later.mono Set.subset_union_left
  have isKnown : recordBlocks narrow firstWorld.pins ⊆ blocksOfFlush narrow firstWorld :=
    Set.subset_union_right
  have addressed : firstWorld.store.ContentAddressed := ObjectStore.contentAddressed_inMemory
  have few : Countable firstWorld.pins := ⟨by decide, by decide⟩
  obtain ⟨committed, named, taken⟩ :=
    committed_of_flush distinct isKnown (sound_blocksOfFlush rfl addressed) flushed
  have record := committed.record distinct isKnown few
  have inside : root ∈ w'.pins.internal := by
    rw [named, taken]
    exact record.root_mem
  have notEmpty : root ≠ Node.emptyDigest := named ▸ recordRoot_ne_empty distinct isKnown
  obtain ⟨n, readable⟩ := record.complete.root
  obtain ⟨data, there, -⟩ := Graph.node?_eq_some.mp readable
  obtain ⟨s, removed, -⟩ := ObjectStore.delete_of_block? (named ▸ there)
  have gone : s.block? root = none := (ObjectStore.block?_delete removed root).trans (if_pos rfl)
  refine ⟨root, w', s, flushed, removed, fun timeout => ?_⟩
  have loaded := load_of_lost narrow timeout rfl addressed distinct few flushed
    (v := World.fresh s w'.records) (ObjectStore.loses_delete removed) rfl rfl
  refine loaded.2.2 fun blocks => ?_
  obtain ⟨data, there⟩ := blocks root inside notEmpty
  cases gone.symm.trans there

end Pin

end PinnedStore
