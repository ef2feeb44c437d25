import PinnedStore.Proofs.Pin.Leftover

/-!
# The two kinds of pins are apart

Nothing is pinned in both ways at once.  A recursive pin takes the place of a direct one, and a
direct pin is refused where there is a recursive one; but this is only checked when a pin is set.
Reading a record checks nothing: the pins are taken as they are found.  So the pins on record have
to be followed along with those in memory.  They are apart because a flush writes down pins that
are, and because what is read back is what some flush has written, whatever has failed since.

* `Pins.Apart`: nothing is pinned in both ways.
* `Pin.Edits.apart`: setting and removing a pin.
* `Pin.flush_pins`: the pins after a flush that may have failed or stopped.
* `Pin.Parted`: the pins in memory are apart, and so are those on record.
* `Pin.Parted.perform`, `Pin.Parted.run`: one request keeps it so, and so do any number.
* `Pin.pins_stay_apart`: nothing is ever pinned in both ways, nor read back as such.
-/

namespace PinnedStore

/-- Nothing is pinned in both ways. -/
def Pins.Apart (pins : Pins) : Prop := ∀ d ∈ pins.direct, d ∉ pins.recursive

theorem Pins.apart_none : Pins.none.Apart :=
  fun _ inside => absurd inside Std.ExtTreeSet.not_mem_empty

namespace Pin

open Program PinSet ObjectStore

variable {known : Set Bytes} {w w' : World} {node? : Digest → Option Node} {pins pins' : Pins}
  {codec : Codec} {timeout : Nat} {requests : List Request}

/-! ## Changes of the pins -/

theorem Edits.apart (edits : Edits node? pins pins') (apart : pins.Apart) : pins'.Apart := by
  intro x inside inside'
  cases edits with
  | same => exact apart x inside inside'
  | setRecursive _ =>
    rw [Std.ExtTreeSet.mem_erase] at inside
    rcases Graph.mem_insert.mp inside' with rfl | before
    · exact inside.1 Std.ReflOrd.compare_self
    · exact apart x inside.2 before
  | setDirect free _ =>
    rcases Graph.mem_insert.mp inside with rfl | before
    · exact free inside'
    · exact apart x before inside'
  | removeRecursive _ => exact apart x inside (Std.ExtTreeSet.mem_of_mem_erase inside')
  | removeDirect _ => exact apart x (Std.ExtTreeSet.mem_of_mem_erase inside) inside'

/-- Whatever becomes of cleaning up, the pins are as they were, or they are those of the new
record. -/
theorem cleanUp_pins (truthful : w.conduct.lies = []) (pins : Pins) (root : Digest)
    (internal : Digests) :
    (cleanUp pins root internal w).2.pins = w.pins ∨
      (cleanUp pins root internal w).2.pins = { w.pins with internal, root := some root } := by
  have removed := (removed_forEach truthful (stale pins internal)).moved.pins
  rw [cleanUp, bind_apply]
  rcases step : forEach (stale pins internal) removeStale w with ⟨_ | e | _, between⟩
  all_goals rw [step] at removed
  · exact Or.inr (congrArg (fun pins : Pins => { pins with internal, root := some root }) removed)
  · exact Or.inl removed
  · exact Or.inl removed

/-- Whatever becomes of a flush, the pins are as they were, or they are those that are on record
then. -/
theorem flush_pins (truthful : w.conduct.lies = []) (codec : Codec) :
    (flush codec w).2.pins = w.pins ∨ (flush codec w).2.pins = recorded codec w.pins := by
  obtain ⟨bs, -, stores⟩ := stores_storeRecord codec w.pins
  have flushes := flush_run truthful stores
  rcases run : flush codec w with ⟨outcome, w'⟩
  rw [run] at flushes
  cases flushes with
  | @goesOn between _ _ _ moved cleaning =>
    have cleaned := cleanUp_pins (w := pointAt (recordRoot codec w.pins).digest between)
      (moved.truthful truthful) w.pins (recordRoot codec w.pins).digest
      (recorded codec w.pins).internal
    rw [cleaning, pins_pointAt, moved.pins] at cleaned
    exact cleaned
  | stopped _ _ _ _ _ moved => exact Or.inl moved.pins

theorem allOrNothing_load (timeout : Nat) : AllOrNothing (load timeout) := by
  refine .bind (onlyReads_getRecord _) fun raw => ?_
  rcases raw with _ | raw
  · exact .of_onlyReads (.fail _)
  dsimp only
  cases Digest.ofBytes raw with
  | error e => exact .of_onlyReads (.fail _)
  | ok root =>
    refine .bind (onlyReads_beforeDeadline (onlyReads_readRecord root)) fun pins => ?_
    exact .of_done fun _ => ⟨_, _, rfl⟩

theorem allOrNothing_openRecord (timeout : Nat) : AllOrNothing (openRecord timeout) := by
  intro w not
  have spared := allOrNothing_load timeout w
  rw [openRecord, bind_apply, attempt] at not ⊢
  rcases run : load timeout w with ⟨_ | e | _, between⟩
  all_goals rw [run] at not spared
  · exact absurd rfl (not () between)
  · have kept : World.Untouched w between := spared fun _ _ same => by cases same
    cases e with
    | noRecord => exact absurd rfl (not () _)
    | _ => exact kept
  · exact spared fun _ _ same => by cases same

/-! ## The pins in memory and on record -/

/-- The pins in memory are apart, and so are those on record. -/
structure Parted (known : Set Bytes) (w : World) : Prop where
  sound : w.Sound known
  inMemory : w.pins.Apart
  onRecord : ∃ pins, InForce w.store w.records pins ∧ pins.Apart

namespace Parted

/-- Where blocks may have been stored and nothing else has been changed. -/
theorem grows (parted : Parted known w) (grows : World.Grows w w') (sound : w'.Sound known) :
    Parted known w' := by
  obtain ⟨pins, inForce, apart⟩ := parted.onRecord
  refine ⟨sound, grows.pins ▸ parted.inMemory, pins, ?_, apart⟩
  rw [grows.records]
  exact inForce.keeps grows.store.keeps

theorem add (parted : Parted known w) (distinct : Distinct known) {node : Node}
    (isKnown : node.encode ∈ known) : Parted known (Graph.add node w).2 := by
  have added := Graph.ensures_add distinct isKnown parted.sound
  exact parted.grows added.moved added.sound

theorem change (parted : Parted known w) {p : Program Error Unit}
    (ensures : Ensures known World.Repins w p fun _ w' => Edits w.store.node? w.pins w'.pins)
    (allOrNothing : AllOrNothing p) : Parted known (p w).2 := by
  have edits := edits_always ensures allOrNothing
  refine ⟨ensures.sound, edits.apart parted.inMemory, ?_⟩
  rw [ensures.moved.store, ensures.moved.records]
  exact parted.onRecord

/-- The node may have been stored and not pinned. -/
theorem pinNode (parted : Parted known w) (distinct : Distinct known) {node : Node}
    (isKnown : node.encode ∈ known) (recursive : Bool) :
    Parted known (Pin.pinNode node recursive w).2 := by
  have added := parted.add distinct isKnown
  rcases pinNode_leaves node recursive w with same | ⟨d, same⟩
  · exact same ▸ added
  · exact same ▸ added.change (edits_pin d recursive added.sound) (allOrNothing_pin d recursive)

/-- A flush has put the pins on record that are in memory, or it has left the old record. -/
theorem flush (parted : Parted known w) (distinct : Distinct known) (few : Countable w.pins)
    (isKnown : recordBlocks codec w.pins ⊆ known) : Parted known (Pin.flush codec w).2 := by
  obtain ⟨sound, ⟨-, committed, -⟩ | ⟨-, grows, -⟩⟩ := flush_cases distinct isKnown parted.sound
  · refine ⟨sound, ?_, recorded codec w.pins, ?_, parted.inMemory⟩
    · rcases flush_pins parted.sound.truthful codec with same | taken
      · exact same ▸ parted.inMemory
      · exact taken ▸ parted.inMemory
    · exact .record committed.pointer (committed.record distinct isKnown few)
  · exact parted.grows grows sound

/-- Where the pins on record have been read, or could not be read. -/
theorem reads (parted : Parted known w) {p : Program Error Unit}
    (does : Does known World.SameStorage p) (allOrNothing : AllOrNothing p)
    (found : ∀ {w'}, p w = (.done (), w') → InForce w.store w.records w'.pins) :
    Parted known (p w).2 := by
  obtain ⟨same, sound⟩ := does w parted.sound
  obtain ⟨pins, inForce, apart⟩ := parted.onRecord
  refine ⟨sound, ?_, pins, ?_, apart⟩
  · by_cases done : ∃ w', p w = (.done (), w')
    · obtain ⟨w', run⟩ := done
      rw [run]
      exact inForce.unique (found run) ▸ apart
    · rw [(allOrNothing w fun _ w' run => done ⟨w', run⟩).pins]
      exact parted.inMemory
  · rw [same.store, same.records]
    exact inForce

/-- One request. -/
theorem perform (parted : Parted known w) (distinct : Distinct known) (few : Countable w.pins)
    (r : Request) (isKnown : ∀ data ∈ r.written w, data ∈ known) : Parted known (r.perform w) := by
  cases r with
  | add node => exact parted.add distinct (isKnown _ List.mem_cons_self)
  | pin d recursive =>
    exact parted.change (edits_pin d recursive parted.sound) (allOrNothing_pin d recursive)
  | pinNode node recursive => exact parted.pinNode distinct (isKnown _ List.mem_cons_self) recursive
  | unpin d recursive =>
    exact parted.change (edits_unpin d recursive parted.sound) (allOrNothing_unpin d recursive)
  | flush codec => exact parted.flush distinct few isKnown
  | load timeout =>
    refine parted.reads (does_load timeout) (allOrNothing_load timeout) fun run => ?_
    obtain ⟨root, pointed, record⟩ := record_of_load parted.sound run
    exact .record pointed record
  | reopen timeout =>
    exact parted.reads (does_openRecord timeout) (allOrNothing_openRecord timeout)
      (openRecord_done parted.sound)

/-- Any number of requests. -/
theorem run (parted : Parted known w) (distinct : Distinct known)
    (few : ∀ early, early <+: requests → Countable (run w early).pins)
    (isKnown : ∀ data ∈ written w requests, data ∈ known) : Parted known (Pin.run w requests) := by
  induction requests generalizing w with
  | nil => exact parted
  | cons r rest ih =>
    have first : Parted known (r.perform w) := parted.perform distinct (few [] List.nil_prefix) r
      fun data inside => isKnown data (List.mem_append_left _ inside)
    refine ih first (fun early before => ?_) fun data inside =>
      isKnown data (List.mem_append_right _ inside)
    exact few (r :: early) (List.cons_prefix_cons.mpr ⟨rfl, before⟩)

/-- What loading makes of a world whose pins are apart, in whatever storage. -/
theorem load (parted : Parted known w) {v v' : World} (store : v.store = w.store)
    (records : v.records = w.records) (truthful : v.conduct.lies = [])
    (loaded : Pin.load timeout v = (.done (), v')) : v'.pins.Apart := by
  obtain ⟨pins, inForce, apart⟩ := parted.onRecord
  have sound : v.Sound known :=
    ⟨truthful, store ▸ parted.sound.addressed, store ▸ parted.sound.blocks⟩
  obtain ⟨root, pointed, record⟩ := record_of_load sound loaded
  have found : InForce v.store v.records v'.pins := .record pointed record
  rw [store, records] at found
  exact inForce.unique found ▸ apart

/-- What loading finds where storage is honest. -/
theorem finds (parted : Parted known w) :
    ∃ found, Finds w.store w.records found ∧ ∀ pins, found = some pins → pins.Apart := by
  obtain ⟨pins, inForce, apart⟩ := parted.onRecord
  cases inForce with
  | unset unset => exact ⟨none, finds_none unset, nofun⟩
  | record pointed record =>
    refine ⟨some pins, finds_of_record pointed record, fun pins' same => ?_⟩
    cases same
    exact apart

end Parted

/-- In a run that begins without a record and with a new pinner, nothing is ever pinned in both
ways, whichever storage calls fail, and wherever a request is stopped.  Nor is it read back as such
later: where storage is honest, loading finds pins that are apart or that there is no record, and
where it is not, whatever pins loading takes are apart. -/
theorem pins_stay_apart {start : World} {requests : List Request}
    (addressed : start.store.ContentAddressed) (truthful : start.conduct.lies = [])
    (unset : pointer? start.records = none) (new : start.pins = .none)
    (distinct : Distinct (start.store.blocks ∪ { data | data ∈ written start requests }))
    (few : ∀ early, early <+: requests → Countable (run start early).pins) :
    (run start requests).pins.Apart ∧
      (∃ found, Finds (run start requests).store (run start requests).records found ∧
        ∀ pins, found = some pins → pins.Apart) ∧
      ∀ (timeout : Nat) (v v' : World), v.store = (run start requests).store →
        v.records = (run start requests).records → v.conduct.lies = [] →
        load timeout v = (.done (), v') → v'.pins.Apart := by
  have first : Parted (start.store.blocks ∪ { data | data ∈ written start requests }) start :=
    ⟨⟨truthful, addressed, Set.subset_union_left⟩, new ▸ Pins.apart_none, .none, .unset unset,
      Pins.apart_none⟩
  have parted := first.run distinct few fun _ inside => Or.inr inside
  exact ⟨parted.inMemory, parted.finds, fun _ _ _ store records truthful loaded =>
    parted.load store records truthful loaded⟩

/-! ### Pins that change their kind while storage fails -/

/-- Nothing has been stored yet, and one storage call is going to fail. -/
def failingWorld : World :=
  { newWorld with
    conduct := ⟨fun clock _ => if clock = 12 then .fail .missing else .proceed, [], false⟩ }

/-- A direct pin is written down and then gives way to a recursive one.  The flush of that fails, so
the direct pin is there again when the record is read. -/
def changeOfKind : List Request :=
  [.pinNode lone false, .flush narrow, .pin lone.digest true, .flush narrow, .reopen 5000]

/-- There is one pin at any time.  It is recursive before the flush that fails, and direct after the
record is read.  No two blocks of the run have the same digest. -/
theorem run_changeOfKind :
    (∀ n < 6, (run failingWorld (changeOfKind.take n)).pins.direct.size ≤ 1 ∧
      (run failingWorld (changeOfKind.take n)).pins.recursive.size ≤ 1) ∧
      lone.digest ∈ (run failingWorld (changeOfKind.take 4)).pins.recursive ∧
      lone.digest ∈ (run failingWorld changeOfKind).pins.direct ∧
      (written failingWorld changeOfKind).Pairwise fun a b =>
        Digest.of a = Digest.of b → a = b := by
  decide +kernel

theorem distinct_changeOfKind :
    Distinct (failingWorld.store.blocks ∪ { data | data ∈ written failingWorld changeOfKind }) := by
  rw [show failingWorld.store.blocks = ∅ from ObjectStore.blocks_inMemory, Set.empty_union]
  exact distinct_of_pairwise (fun _ h => h) run_changeOfKind.2.2.2

/-- The pin changes its kind and is never of both. -/
theorem pins_stay_apart_changeOfKind :
    lone.digest ∈ (run failingWorld (changeOfKind.take 4)).pins.recursive ∧
      lone.digest ∈ (run failingWorld changeOfKind).pins.direct ∧
      (run failingWorld changeOfKind).pins.Apart ∧
      (∃ found, Finds (run failingWorld changeOfKind).store (run failingWorld changeOfKind).records
        found ∧ ∀ pins, found = some pins → pins.Apart) ∧
      ∀ (timeout : Nat) (v v' : World), v.store = (run failingWorld changeOfKind).store →
        v.records = (run failingWorld changeOfKind).records → v.conduct.lies = [] →
        load timeout v = (.done (), v') → v'.pins.Apart :=
  ⟨run_changeOfKind.2.1, run_changeOfKind.2.2.1,
    pins_stay_apart ObjectStore.contentAddressed_inMemory rfl Std.ExtTreeMap.getElem?_empty rfl
      distinct_changeOfKind (countable_of_take (by decide) run_changeOfKind.1)⟩

end Pin

end PinnedStore
