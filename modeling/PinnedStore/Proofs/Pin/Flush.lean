import PinnedStore.Proofs.Pin.Commit

/-!
# Flushing

A flush first stores a whole record of the pins, then moves the pointer, and then cleans up.
Storing loses nothing, so up to the pointer the old record is as it was.  Cleaning up removes
nothing that the new record is made of, so from the pointer on the new record is there.  There is no
point at which the pointer names anything else than a complete record, wherever the run is stopped
and whatever fails.

* `flush_cases`: a flush has committed, or it has lost nothing and not moved the pointer.
* `flush_crash`: what loading finds after a flush, wherever it has stopped.
* `load_of_flush`: loading takes back what was flushed.
-/

namespace PinnedStore.Pin

open Program PinSet

variable {known : Set Bytes} {w w' : World} {codec : Codec}

/-- What a flush leaves behind once its commit has gone through. -/
structure Committed (codec : Codec) (w w' : World) : Prop where
  stored : ∃ s, ObjectStore.Grows w.store s ∧
    (∀ n ∈ recordNodes codec w.pins, s.block? n.digest = some n.encode) ∧
    ObjectStore.Sheds (· ∈ stale w.pins (recorded codec w.pins).internal) s w'.store
  records : w'.records = w.records.insert pointerKey (recordRoot codec w.pins).digest.bytes

/-- A run of a flush has lost nothing and not moved the pointer, or it has stored a record, moved
the pointer and removed nothing but stale nodes. -/
theorem flush_cases (distinct : Distinct known) (isKnown : recordBlocks codec w.pins ⊆ known)
    (sound : w.Sound known) :
    (flush codec w).2.Sound known ∧
      (((∃ answer w', commit codec w = (.done answer, w')) ∧ Committed codec w (flush codec w).2 ∧
        ∀ root w', flush codec w = (.done root, w') →
          root = (recordRoot codec w.pins).digest ∧ w'.pins = recorded codec w.pins) ∨
        ((¬ ∃ answer w', commit codec w = (.done answer, w')) ∧ World.Grows w (flush codec w).2 ∧
          ∀ root w', flush codec w ≠ (.done root, w'))) := by
  rw [flush_eq]
  rcases commit_cases distinct isKnown sound with
    ⟨between, grows, sound', nodes, committed⟩ | ⟨not, moved, sound'⟩
  · rw [bind_of_done committed]
    dsimp only
    have cleaned := cleanUp_run (w := pointAt (recordRoot codec w.pins).digest between)
      sound'.truthful w.pins (recordRoot codec w.pins).digest (recorded codec w.pins).internal
    obtain ⟨sheds, sound''⟩ := cleaned.sheds (sound_pointAt _ sound')
    have moved : (pointAt (recordRoot codec w.pins).digest between).records
        = w.records.insert pointerKey (recordRoot codec w.pins).digest.bytes := by
      rw [pointAt, grows.records]
    refine ⟨sound'', Or.inl ⟨⟨_, _, committed⟩, ?_, ?_⟩⟩
    · constructor
      · exact ⟨between.store, grows.store, nodes, sheds⟩
      · exact cleaned.records.trans moved
    · intro root w' done
      rw [done] at cleaned
      obtain ⟨same, taken⟩ := cleaned.done rfl
      refine ⟨same, ?_⟩
      rw [taken, pins_pointAt, grows.pins]
      rfl
  · have stopped : ¬ ∃ answer w', commit codec w = (.done answer, w') := by
      rintro ⟨answer, w', done⟩
      exact not answer w' done
    rw [bind_apply]
    rcases run : commit codec w with ⟨answer | e | _, w'⟩
    · exact absurd run (not answer w')
    all_goals
      rw [run] at moved sound' stopped
      refine ⟨sound', Or.inr ⟨stopped, moved, ?_⟩⟩
      rintro root w' ⟨⟩

namespace Committed

/-- Once a commit has gone through, the record of the pins is there, and the pointer names it. -/
theorem record (committed : Committed codec w w') (distinct : Distinct known)
    (isKnown : recordBlocks codec w.pins ⊆ known) (few : Countable w.pins) :
    Record w'.store.node? (recordRoot codec w.pins).digest (recorded codec w.pins) := by
  obtain ⟨s, -, nodes, sheds⟩ := committed.stored
  refine (record_of_stored distinct isKnown few nodes).congr fun d inside n => ?_
  exact Graph.node?_mono fun data => sheds.block? (not_stale_of_mem_internal inside)

theorem pointer (committed : Committed codec w w') :
    pointer? w'.records = some (recordRoot codec w.pins).digest.bytes := by
  rw [pointer?, committed.records, Std.ExtTreeMap.getElem?_insert_self]

/-- All blocks of the record are there. -/
theorem exists_block? (committed : Committed codec w w') {d : Digest}
    (inside : d ∈ (recorded codec w.pins).internal) : ∃ data, w'.store.block? d = some data := by
  obtain ⟨s, -, nodes, sheds⟩ := committed.stored
  have isNode := inside
  rw [recorded, Digests.mem_ofList, List.mem_map] at isNode
  obtain ⟨n, isNode, rfl⟩ := isNode
  exact ⟨_, sheds.block? (not_stale_of_mem_internal inside) (nodes n isNode)⟩

/-- A block that is not stale stays. -/
theorem block? (committed : Committed codec w w') {d : Digest} {data : Bytes}
    (apart : d ∉ stale w.pins (recorded codec w.pins).internal) (h : w.store.block? d = some data) :
    w'.store.block? d = some data := by
  obtain ⟨s, grows, -, sheds⟩ := committed.stored
  exact sheds.block? apart (grows.block? h)

end Committed

/-- A flush that gives an answer has committed, and answers with the root of the record. -/
theorem committed_of_flush (distinct : Distinct known) (isKnown : recordBlocks codec w.pins ⊆ known)
    (sound : w.Sound known) {root : Digest} (flushed : flush codec w = (.done root, w')) :
    Committed codec w w' ∧ root = (recordRoot codec w.pins).digest ∧
      w'.pins = recorded codec w.pins := by
  obtain ⟨-, ⟨-, committed, promise⟩ | ⟨-, -, not⟩⟩ := flush_cases distinct isKnown sound
  · rw [flushed] at committed
    exact ⟨committed, promise root w' flushed⟩
  · exact absurd flushed (not root w')

/-- Where storage is honest, a flush that commits goes through, and the stale nodes that could be
read are gone. -/
theorem flush_honest (distinct : Distinct known) (isKnown : recordBlocks codec w.pins ⊆ known)
    (sound : w.Sound known) (honest : w.conduct = .honest)
    (committed : ∃ answer w', commit codec w = (.done answer, w')) :
    ∃ root w', flush codec w = (.done root, w') ∧
      ∀ d ∈ stale w.pins (recorded codec w.pins).internal, ∀ data,
        w.store.block? d = some data → w'.store.held d = none := by
  rw [flush_eq]
  rcases commit_cases distinct isKnown sound with ⟨between, grows, sound', -, run⟩ | ⟨not, -⟩
  · have stillHonest : between.conduct = .honest := grows.conduct.trans honest
    have cleaned := cleanUp_run (w := pointAt (recordRoot codec w.pins).digest between)
      sound'.truthful w.pins (recordRoot codec w.pins).digest (recorded codec w.pins).internal
    obtain ⟨done, dropped⟩ := cleaned.honest stillHonest
    refine ⟨_, _, (bind_of_done run).trans (Prod.ext done rfl), ?_⟩
    intro d isStale data there
    rw [dropped]
    exact ObjectStore.held_dropAll isStale (grows.store.block? there)
  · obtain ⟨answer, w', done⟩ := committed
    exact absurd done (not answer w')

/-- The blocks that are stored, and those that a flush writes. -/
def blocksOfFlush (codec : Codec) (w : World) : Set Bytes :=
  w.store.blocks ∪ recordBlocks codec w.pins

theorem sound_blocksOfFlush (truthful : w.conduct.lies = [])
    (addressed : w.store.ContentAddressed) : w.Sound (blocksOfFlush codec w) :=
  ⟨truthful, addressed, Set.subset_union_left⟩

/-- Wherever a flush stops and whichever of its calls fail, loading finds the pins it was to write
if the commit has gone through, the last call of which moves the pointer, and otherwise what it
would have found before.  No block is lost or altered that was not part of the old record. -/
theorem flush_crash (codec : Codec) {w : World} {before : Option Pins}
    (truthful : w.conduct.lies = []) (addressed : w.store.ContentAddressed)
    (distinct : Distinct (blocksOfFlush codec w)) (few : Countable w.pins)
    (found : Finds w.store w.records before) :
    ((∃ answer w', commit codec w = (.done answer, w')) →
      Finds (flush codec w).2.store (flush codec w).2.records (some (recorded codec w.pins))) ∧
    ((¬ ∃ answer w', commit codec w = (.done answer, w')) →
      Finds (flush codec w).2.store (flush codec w).2.records before) ∧
    ∀ d data, d ∉ w.pins.internal → w.store.block? d = some data →
      (flush codec w).2.store.block? d = some data := by
  have isKnown : recordBlocks codec w.pins ⊆ blocksOfFlush codec w := Set.subset_union_right
  obtain ⟨-, ⟨done, committed, -⟩ | ⟨not, grows, -⟩⟩ :=
    flush_cases distinct isKnown (sound_blocksOfFlush truthful addressed)
  · refine ⟨fun _ => ?_, fun not => absurd done not, fun d data apart =>
      committed.block? fun isStale =>
      apart (mem_internal_of_stale isStale)⟩
    exact finds_of_record committed.pointer (committed.record distinct isKnown few)
  · refine ⟨fun done => absurd done not, fun _ => ?_, fun d data _ => grows.store.block?⟩
    rw [grows.records]
    cases before with
    | none => exact finds_none (pointer_of_finds found)
    | some pins =>
      obtain ⟨root, pointed, record⟩ := record_of_finds addressed found
      refine finds_of_record pointed (record.congr fun d _ n => ?_)
      exact Graph.node?_mono fun data => grows.store.block?

/-! ### Two flushes in a row -/

/-- Pins that have not been written down. -/
def firstPins : Pins := ⟨{Sample.repeated 1}, {Sample.repeated 2}, ∅, none⟩

/-- A world with these pins and nothing in its storage. -/
def firstWorld : World := { World.fresh .inMemory ∅ with pins := firstPins }

/-- The same pins once they are written down, and one more. -/
def laterPins : Pins :=
  { recorded narrow firstPins with direct := {Sample.repeated 2, Sample.repeated 3} }

/-- The world after the pins have been written down, with one pin more, and with storage that stops
working at the eighth call. -/
def laterWorld : World :=
  { (flush narrow firstWorld).2 with
    pins := laterPins
    conduct := ⟨fun clock _ => if clock = 7 then .halt else .proceed, [], false⟩
    clock := 0 }

theorem isDone_flush_firstWorld : (flush narrow firstWorld).1.isDone = true := by decide +kernel

theorem distinct_first_later :
    Distinct (recordBlocks narrow firstPins ∪ recordBlocks narrow laterPins) := by
  refine distinct_of_pairwise (fun data h => List.mem_append.mpr h) ?_
  decide +kernel

theorem committed_firstWorld :
    (flush narrow firstWorld).2.Sound (recordBlocks narrow firstPins) ∧
      Committed narrow firstWorld (flush narrow firstWorld).2 := by
  have sound : firstWorld.Sound (recordBlocks narrow firstPins) :=
    ⟨rfl, ObjectStore.contentAddressed_inMemory,
      ObjectStore.blocks_inMemory.trans_subset (Set.empty_subset _)⟩
  have distinct : Distinct (recordBlocks narrow firstPins) :=
    distinct_first_later.mono Set.subset_union_left
  have isKnown : recordBlocks narrow firstWorld.pins ⊆ recordBlocks narrow firstPins :=
    Set.Subset.rfl
  rcases flush_cases distinct isKnown sound with ⟨sound', ⟨-, committed, -⟩ | ⟨-, -, not⟩⟩
  · exact ⟨sound', committed⟩
  · obtain ⟨root, w', done⟩ := exists_done isDone_flush_firstWorld
    exact absurd done (not root w')

/-- The later world has the storage that the first flush has left. -/
theorem storage_laterWorld : laterWorld.store = (flush narrow firstWorld).2.store ∧
    laterWorld.records = (flush narrow firstWorld).2.records := by
  -- For any world, so that what the flush leaves is not evaluated.
  have kept : ∀ (w : World) (pins : Pins) (conduct : Conduct) (clock : Nat),
      ({ w with pins, conduct, clock } : World).store = w.store ∧
        ({ w with pins, conduct, clock } : World).records = w.records :=
    fun _ _ _ _ => ⟨rfl, rfl⟩
  exact kept _ _ _ _

theorem sound_laterWorld : laterWorld.Sound (recordBlocks narrow firstPins) := by
  obtain ⟨-, addressed, blocks⟩ := committed_firstWorld.1
  rw [← storage_laterWorld.1] at addressed blocks
  exact ⟨rfl, addressed, blocks⟩

theorem distinct_laterWorld : Distinct (blocksOfFlush narrow laterWorld) :=
  distinct_first_later.mono (Set.union_subset_union_left _ sound_laterWorld.blocks)

theorem finds_laterWorld :
    Finds laterWorld.store laterWorld.records (some (recorded narrow firstPins)) := by
  rw [storage_laterWorld.1, storage_laterWorld.2]
  exact finds_of_record committed_firstWorld.2.pointer (committed_firstWorld.2.record
    (distinct_first_later.mono Set.subset_union_left) Set.Subset.rfl ⟨by decide, by decide⟩)

/-- A second flush that is cut short. -/
theorem flush_crash_laterWorld :
    ((∃ answer w', commit narrow laterWorld = (.done answer, w')) →
      Finds (flush narrow laterWorld).2.store (flush narrow laterWorld).2.records
        (some (recorded narrow laterPins))) ∧
    ((¬ ∃ answer w', commit narrow laterWorld = (.done answer, w')) →
      Finds (flush narrow laterWorld).2.store (flush narrow laterWorld).2.records
        (some (recorded narrow firstPins))) ∧
    ∀ d data, d ∉ laterPins.internal → laterWorld.store.block? d = some data →
      (flush narrow laterWorld).2.store.block? d = some data :=
  flush_crash narrow rfl sound_laterWorld.addressed distinct_laterWorld
    ⟨by decide, by decide⟩ finds_laterWorld

/-- After a flush that gives an answer, the pointer names the root that it answered with, which is a
node of the record, and loading takes back the pins as they are. -/
theorem load_of_flush (codec : Codec) {w w' : World} {root : Digest}
    (truthful : w.conduct.lies = []) (addressed : w.store.ContentAddressed)
    (distinct : Distinct (blocksOfFlush codec w)) (few : Countable w.pins)
    (flushed : flush codec w = (.done root, w')) :
    w'.pins.direct = w.pins.direct ∧ w'.pins.recursive = w.pins.recursive ∧
      w'.pins.root = some root ∧ root ∈ w'.pins.internal ∧
      w'.records[pointerKey]? = some root.bytes ∧
      ∀ (timeout : Nat) (v : World), v.store = w'.store → v.records = w'.records →
        v.conduct = .honest → ∃ v', load timeout v = (.done (), v') ∧ v'.pins = w'.pins := by
  have isKnown : recordBlocks codec w.pins ⊆ blocksOfFlush codec w := Set.subset_union_right
  obtain ⟨-, ⟨-, committed, promise⟩ | ⟨-, -, not⟩⟩ :=
    flush_cases distinct isKnown (sound_blocksOfFlush truthful addressed)
  · rw [flushed] at committed
    obtain ⟨rfl, taken⟩ := promise root w' flushed
    have record := committed.record distinct isKnown few
    rw [taken]
    exact ⟨rfl, rfl, rfl, record.root_mem, committed.pointer,
      finds_of_record committed.pointer record⟩
  · exact absurd flushed (not root w')

/-- A flush into an empty store, and what is taken back from it. -/
theorem load_of_flush_firstWorld :
    ∃ root w', flush narrow firstWorld = (.done root, w') ∧ w'.pins.direct = firstPins.direct ∧
      w'.pins.recursive = firstPins.recursive ∧ w'.pins.root = some root ∧
      root ∈ w'.pins.internal ∧ w'.records[pointerKey]? = some root.bytes ∧
      ∀ (timeout : Nat) (v : World), v.store = w'.store → v.records = w'.records →
        v.conduct = .honest → ∃ v', load timeout v = (.done (), v') ∧ v'.pins = w'.pins := by
  obtain ⟨root, w', flushed⟩ := exists_done isDone_flush_firstWorld
  have distinct : Distinct (blocksOfFlush narrow firstWorld) := by
    rw [blocksOfFlush, show firstWorld.store.blocks = ∅ from ObjectStore.blocks_inMemory,
      Set.empty_union]
    exact distinct_first_later.mono Set.subset_union_left
  exact ⟨root, w', flushed, load_of_flush narrow rfl ObjectStore.contentAddressed_inMemory distinct
    ⟨by decide, by decide⟩ flushed⟩

end PinnedStore.Pin
