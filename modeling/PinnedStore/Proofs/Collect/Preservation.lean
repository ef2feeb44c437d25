import PinnedStore.Proofs.Collect.Agreement
import PinnedStore.Proofs.Pin.Flush
import PinnedStore.Proofs.Storage.Written

/-!
# What a collection leaves as it is

A collection that has found out what must be kept removes nothing of it.  It may be stopped after
any number of removals and any of them may fail; what has not been removed by then is still there,
and that is all the difference it makes.  So everything that was pinned can be read as before, and
so can the record of the pins, the nodes of which are kept too.  The next collection finds that the
same must be kept.

Where no removal fails, the next collection finds nothing to remove.  This asks more of the store
than that nothing is lost: there must be nothing in it that is listed as a block and can not be
removed as one.  A store that has been written block by block is like this.

* `Pin.Backed`, `Pin.Backed.keeps`: the pins in memory belong to the record in force, which can be
  loaded as long as none of its nodes is lost.
* `Collect.retained_keeps`: what must be kept stays the same as long as nothing of it is lost.
* `Collect.sweep_again`: where all that can be read must be kept, there is nothing to remove.
* `Collect.sweep_preserves`: what is so after a sweep, wherever it has stopped.
-/

namespace PinnedStore

open Program

namespace Pin

/-- The pins in memory belong to the record in force, from which these pins are loaded: it has the
same root and the same nodes.  Pins may have been set and removed since. -/
structure Backed (w : World) (found : Pins) : Prop where
  finds : Finds w.store w.records (some found)
  root : found.root = w.pins.root
  internal : found.internal = w.pins.internal

variable {w w' : World} {known : Set Bytes} {timeout : Nat}

/-- Pins that have just been loaded belong to the record in force. -/
theorem backed_of_load (sound : w.Sound known) (h : load timeout w = (.done (), w')) :
    Backed w' w'.pins := by
  obtain ⟨root, pointed, record⟩ := record_of_load sound h
  obtain ⟨same, -⟩ := (does_load timeout).leaves sound h
  rw [← same.store] at record
  rw [← same.records] at pointed
  exact ⟨finds_of_record pointed record, rfl, rfl⟩

/-- Pins that have just been written down belong to the record in force. -/
theorem backed_of_flush {codec : PinSet.Codec} {root : Digest} (distinct : Distinct known)
    (isKnown : recordBlocks codec w.pins ⊆ known) (sound : w.Sound known) (few : Countable w.pins)
    (h : flush codec w = (.done root, w')) : Backed w' w'.pins := by
  obtain ⟨committed, -, taken⟩ := committed_of_flush distinct isKnown sound h
  have record := committed.record distinct isKnown few
  rw [← taken] at record
  exact ⟨finds_of_record committed.pointer record, rfl, rfl⟩

/-- As long as no node of the record is lost, the same pins are loaded. -/
theorem Backed.keeps {found : Pins} (backed : Backed w found) (addressed : w.store.ContentAddressed)
    (records : w'.records = w.records)
    (stays : ∀ d ∈ w.pins.internal, ∀ data, w.store.block? d = some data →
      w'.store.block? d = some data) :
    Finds w'.store w'.records (some found) := by
  obtain ⟨root, pointed, record⟩ := record_of_finds addressed backed.finds
  rw [← records] at pointed
  refine finds_of_record pointed (record.congr fun d inside n => ?_)
  exact Graph.node?_mono (stays d (backed.internal ▸ inside))

end Pin

namespace Collect

variable {w w' w₁ w₂ v : World} {known : Set Bytes} {kept : Digests}
  {outcome : Outcome Failure Report}

/-- Where everything below the recursive pins can be read, it can be found out what must be kept. -/
theorem retained_honest (honest : w.conduct = .honest)
    (fetchable : ∀ r ∈ w.pins.recursive, Fetchable w.store.node? r) :
    ∃ kept w', retained w = (.done kept, w') := by
  have inspected : (Pin.current : Program Pin.Error Pins) w = (.done w.pins, w) := rfl
  obtain ⟨below, w', closed⟩ := Graph.closure_honest honest (fun _ => Pin.Error.fetch)
    fun r h => fetchable r (Std.ExtTreeSet.mem_toList.mp h)
  rw [retained, bind_of_done inspected]
  exact ⟨_, _, (bind_of_done closed).trans rfl⟩

/-- As long as nothing of what must be kept is lost, everything below the recursive pins can be read
as before, and the same must be kept. -/
theorem retained_keeps (truthful : w.conduct.lies = []) (collected : retained w = (.done kept, w₁))
    {s : ObjectStore}
    (stays : ∀ d ∈ kept, ∀ data, w.store.block? d = some data → s.block? d = some data) :
    (∀ r ∈ w.pins.recursive, Fetchable s.node? r) ∧
      ∀ v : World, v.store = s → v.pins = w.pins → v.conduct = .honest →
        ∃ v', retained v = (.done kept, v') := by
  obtain ⟨-, fetchable, members⟩ := retained_done truthful collected
  -- Only nodes below recursive pins are read, and all of these are kept.
  have nodes : ∀ r ∈ w.pins.recursive, ∀ x, Reaches w.store.node? r x →
      ∀ n, w.store.node? x = some n → s.node? x = some n := fun r isPin x reached n =>
    Graph.node?_mono (stays x ((members x).mpr (Or.inl ⟨r, isPin, reached⟩)))
  have still : ∀ r ∈ w.pins.recursive,
      Fetchable s.node? r ∧ ∀ d, Reaches s.node? r d → Reaches w.store.node? r d :=
    fun r isPin => (fetchable r isPin).mono (nodes r isPin)
  refine ⟨fun r isPin => (still r isPin).1, ?_⟩
  rintro v rfl samePins honest
  have truthful' := World.truthful_of_honest honest
  obtain ⟨kept', v', collected'⟩ := retained_honest honest fun r isPin =>
    (still r (samePins ▸ isPin)).1
  obtain ⟨-, -, members'⟩ := retained_done truthful' collected'
  have same : kept' = kept := by
    refine Std.ExtTreeSet.ext_mem fun d => ?_
    rw [members', members, samePins]
    refine or_congr_left (exists_congr fun r => and_congr_right fun isPin => ⟨?_, ?_⟩)
    · exact (still r isPin).2 d
    · exact fun reached => reached.mono (nodes r isPin)
  exact ⟨v', same ▸ collected'⟩

/-- A sweep of a store of blocks leaves a store of blocks. -/
theorem does_sweep_regular (kept : Digests) :
    Does Set.univ (World.Moves (ObjectStore.Preserves ObjectStore.Regular)) (sweep kept false) :=
  does_sweep_of_remove false fun d _ => Blocks.does_remove_regular d

/-- Where storage is honest, a sweep of a store of blocks gives an answer and removes just its
candidates. -/
theorem sweep_of_regular (kept : Digests) (honest : w.conduct = .honest)
    (regular : w.store.Regular) :
    ∃ report ds w', sweep kept false w = (.done report, w') ∧ Blocks.list w = (.done ds, w.ticked) ∧
      World.Moves (ObjectStore.Drops fun d => d ∈ ds ∧ d ∉ kept) w w' := by
  obtain ⟨ds, listed, -⟩ := Blocks.list_of_regular honest regular
  obtain ⟨errors, w', run, dropped⟩ := sweep_of_list kept honest listed
  exact ⟨_, ds, w', run, listed, dropped⟩

/-- A block that is there after all candidates have been removed must be kept. -/
theorem mem_kept_of_block? {ds : List Digest} {between : World} (truthful : w.conduct.lies = [])
    (enumerates : w.store.Enumerates) (listed : Blocks.list w = (.done ds, between))
    (dropped : ObjectStore.Drops (fun d => d ∈ ds ∧ d ∉ kept) w.store w'.store)
    {d : Digest} {data : Bytes} (there : w'.store.block? d = some data) : d ∈ kept := by
  by_contra outside
  have still : d ∉ ds := by
    intro inside
    cases (dropped.gone d ⟨inside, outside⟩).symm.trans there
  have before : w.store.block? d = some data :=
    (dropped.others d fun lost => still lost.1).symm.trans there
  exact still (Blocks.mem_of_list_done truthful enumerates listed before)

/-- After a sweep of a store of blocks that has removed all its candidates, the next one removes
nothing. -/
theorem sweep_after_drops {ds : List Digest} {between : World} (truthful : w.conduct.lies = [])
    (regular : w.store.Regular) (swept : sweep kept false w = (outcome, w'))
    (listed : Blocks.list w = (.done ds, between))
    (dropped : World.Moves (ObjectStore.Drops fun d => d ∈ ds ∧ d ∉ kept) w w')
    (same : v.store = w'.store) (honest : v.conduct = .honest) :
    ∃ report v', sweep kept false v = (.done report, v') ∧ report.candidates = [] ∧
      report.deleted = 0 ∧ v'.store = w'.store := by
  have sound : w.Sound Set.univ := ⟨truthful, regular.addressed, Set.subset_univ _⟩
  obtain ⟨sheds, -⟩ := (does_sweep kept false).leaves sound swept
  obtain ⟨preserves, -⟩ := (does_sweep_regular kept).leaves sound swept
  have regular' : v.store.Regular := same ▸ preserves.store regular
  obtain ⟨ds', listed', readable⟩ := Blocks.list_of_regular honest regular'
  have truthful' := World.truthful_of_honest honest
  rw [← same]
  refine sweep_again listed' fun d inside => ?_
  obtain ⟨data, there⟩ := readable d inside
  obtain ⟨path, onList, -⟩ := ((Blocks.list_done truthful' listed').2 d).mp inside
  -- A store at the empty path would have listed nothing before and nothing now.
  have enumerates : w.store.Enumerates := by
    rw [ObjectStore.Enumerates, ← sheds.store.later.base?, ← same]
    exact ObjectStore.enumerates_of_mem_list onList
  exact mem_kept_of_block? truthful enumerates listed dropped.store (same ▸ there)

/-- After what must be kept has been found out and a sweep has begun, and wherever it has stopped
and whichever removals have failed, no block that must be kept has been lost or altered; everything
below the recursive pins can be fetched; the same pins are loaded; and the same must be kept.  A
sweep with honest storage gives an answer.  After such a sweep, and after any other of which no
removal has failed, the next one removes nothing. -/
theorem sweep_preserves {w w₁ w₂ : World} {kept : Digests} {found : Pins}
    {outcome : Outcome Failure Report} (truthful : w.conduct.lies = []) (written : w.store.Written)
    (backed : Pin.Backed w found) (collected : retained w = (.done kept, w₁))
    (swept : sweep kept false w₁ = (outcome, w₂)) :
    (∀ d ∈ kept, ∀ data, w.store.block? d = some data → w₂.store.block? d = some data) ∧
    (∀ r ∈ w.pins.recursive, ∀ v : World, v.store = w₂.store → v.conduct = .honest →
      ∃ v', Graph.fetch r v = (.done (), v')) ∧
    Pin.Finds w₂.store w₂.records (some found) ∧
    (∀ v : World, v.store = w₂.store → v.pins = w.pins → v.conduct = .honest →
      ∃ v', retained v = (.done kept, v')) ∧
    (w.conduct = .honest → ∃ report, outcome = .done report) ∧
    (w.conduct = .honest ∨ (∃ report, outcome = .done report ∧ report.errors = []) →
      ∀ v : World, v.store = w₂.store → v.conduct = .honest →
        ∃ report v', sweep kept false v = (.done report, v') ∧ report.candidates = [] ∧
          report.deleted = 0 ∧ v'.store = w₂.store) := by
  have regular := written.regular
  have sound : w.Sound w.store.blocks := ⟨truthful, regular.addressed, Set.Subset.rfl⟩
  obtain ⟨moved, -, members⟩ := retained_done truthful collected
  obtain ⟨sheds, -⟩ := (does_sweep kept false).leaves (moved.sound sound) swept
  have truthful₁ : w₁.conduct.lies = [] := moved.truthful truthful
  have regular₁ : w₁.store.Regular := moved.store ▸ regular
  have stays : ∀ d ∈ kept, ∀ data,
      w.store.block? d = some data → w₂.store.block? d = some data := by
    intro d inside data there
    rw [moved.store] at there
    exact sheds.store.block? (fun outside => outside inside) there
  obtain ⟨fetchable, again⟩ := retained_keeps truthful collected stays
  refine ⟨stays, ?_, ?_, again, fun honest => ?_, ?_⟩
  · rintro r isPin v same honest
    rw [Graph.fetch_iff honest, same]
    exact fetchable r isPin
  · refine backed.keeps regular.addressed (sheds.records.trans moved.records) fun d inside => ?_
    exact stays d ((members d).mpr (Or.inr (Or.inr inside)))
  · obtain ⟨report, ds, w', run, -⟩ := sweep_of_regular kept (moved.conduct.trans honest) regular₁
    cases swept.symm.trans run
    exact ⟨report, rfl⟩
  · rintro (honest | ⟨report, rfl, none⟩) v same honest'
    · obtain ⟨report, ds, w', run, listed, dropped⟩ :=
        sweep_of_regular kept (moved.conduct.trans honest) regular₁
      cases swept.symm.trans run
      exact sweep_after_drops truthful₁ regular₁ swept listed dropped same honest'
    · obtain ⟨ds, between, listed, dropped⟩ := sweep_done truthful₁ swept none
      exact sweep_after_drops truthful₁ regular₁ swept listed dropped same honest'

/-! ### A block that nobody needs -/

/-- A node that is going to be pinned. -/
def neededNode : Node := ⟨[], Bytes.ofText "needed"⟩

/-- This node is pinned with everything below it. -/
def neededPins : Pins := ⟨{neededNode.digest}, ∅, ∅, none⟩

/-- A store into which these blocks have been written. -/
def storeOf (blocks : List Bytes) : ObjectStore :=
  blocks.foldr (fun data s => (Blocks.put data (World.fresh s ∅)).2.store) .inMemory

theorem written_storeOf (blocks : List Bytes) : (storeOf blocks).Written := by
  induction blocks with
  | nil => exact .memory
  | cons data rest ih => exact .put (w := World.fresh (storeOf rest) ∅) ih rfl data

/-- The node, the record of its pin, and a block that nobody needs. -/
def neededBlocks : List Bytes :=
  Bytes.ofText "of no use" :: neededNode.encode
    :: (Pin.recordNodes PinSet.narrow neededPins).map Node.encode

/-- A world with these blocks, and the pointer at the record. -/
def neededWorld : World :=
  World.fresh (storeOf neededBlocks)
    ((∅ : Records).insert Pin.pointerKey (Pin.recordRoot PinSet.narrow neededPins).digest.bytes)

theorem isDone_retained_neededWorld :
    ((Pin.load 0 >>= fun _ => retained) neededWorld).1.isDone = true := by decide +kernel

/-- Pins that have been loaded, and a sweep. -/
theorem sweep_preserves_neededWorld : ∃ w kept w₁, Pin.load 0 neededWorld = (.done (), w) ∧
    retained w = (.done kept, w₁) ∧ ∀ outcome w₂, sweep kept false w₁ = (outcome, w₂) →
      (∀ d ∈ kept, ∀ data, w.store.block? d = some data → w₂.store.block? d = some data) ∧
        Pin.Finds w₂.store w₂.records (some w.pins) := by
  obtain ⟨kept, w₁, run⟩ := exists_done isDone_retained_neededWorld
  obtain ⟨written, truthful⟩ : neededWorld.store.Written ∧ neededWorld.conduct.lies = [] := by
    simp only [neededWorld, World.fresh]
    exact ⟨written_storeOf neededBlocks, rfl⟩
  -- What the blocks of the store are does not matter from here on.
  generalize neededWorld = start at run written truthful ⊢
  obtain ⟨_, w, loaded, collected⟩ := done_of_bind run
  have sound : start.Sound Set.univ := ⟨truthful, written.regular.addressed, Set.subset_univ _⟩
  obtain ⟨same, -⟩ := (Pin.does_load 0).leaves sound loaded
  have backed := Pin.backed_of_load sound loaded
  rw [← same.store] at written
  rw [← same.conduct] at truthful
  refine ⟨w, kept, w₁, loaded, collected, fun outcome w₂ swept => ?_⟩
  obtain ⟨stays, -, found, -⟩ := sweep_preserves truthful written backed collected swept
  exact ⟨stays, found⟩

end Collect

end PinnedStore
