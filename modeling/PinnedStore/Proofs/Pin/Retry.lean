import PinnedStore.Proofs.Pin.Flush
import PinnedStore.Proofs.PinSet.Canonical

/-!
# Flushing once more

A flush that fails has not moved the pointer, so all it has done is a first part of storing the
record.  A flush after it finds these blocks there, stores the others, and goes on as if nothing had
happened.  A flush after one that went through finds all blocks of the record there, and nothing
that is stale.

What a flush answers does not depend on the storage at all: it follows from the pins, and from these
as sets, since a codec adds up the counts of digests in any order to the same sum.

Nothing is asked of the store for this, nor of the digests.

* `flush_retry`: a flush that fails, and a flush after it.
* `flush_determined`: what a flush answers, and a flush after one that went through.
-/

namespace PinnedStore

/-- The world with storage that does what it is asked to do from now on. -/
def World.repaired (w : World) : World := { w with conduct := .honest }

/-- Setting a record to the value that it has changes nothing. -/
theorem Records.insert_eq_self {records : Records} {key : String} {value : Bytes}
    (there : records[key]? = some value) : records.insert key value = records := by
  refine Std.ExtTreeMap.ext_getElem? fun other => ?_
  rw [Std.ExtTreeMap.getElem?_insert]
  split
  · next same => rw [← Std.compare_eq_iff_eq.mp same, there]
  · rfl

namespace PinSet

/-- Digests are written alike in any order. -/
theorem Codec.writeSet_perm (codec : Codec) {ds ds' : List Digest} (same : ds.Perm ds') :
    codec.writeSet ds = codec.writeSet ds' := by
  have entries : (ds.map fun d => (d, (1 : UInt64))).Perm (ds'.map fun d => (d, 1)) := same.map _
  have totals : SameTotals (ds.map fun d => (d, 1)) (ds'.map fun d => (d, 1)) := fun d => by
    rw [total_perm entries]
  rw [writeSet, writeSet, codec.write_congr totals]

end PinSet

namespace Pin

open Program PinSet ObjectStore

variable {w w' v v' : World} {codec : Codec} {bs : List Bytes}

/-! ## What becomes of a flush -/

section Outcomes

variable (stores : Stores bs ((recordRoot codec w.pins).digest, (recorded codec w.pins).internal)
  (storeRecord codec w.pins))

include stores

/-- A flush that fails has stored a first part of the record. -/
theorem flush_failed {e : Error} (truthful : w.conduct.lies = [])
    (failed : flush codec w = (.failed e, w')) :
    World.Changes w w' ∧ ∃ early, early <+: bs ∧ w'.store = (keepAll early w.store).2 := by
  have flushes := flush_run truthful stores
  rw [failed] at flushes
  cases flushes with
  | goesOn _ _ _ cleaned => exact absurd rfl (cleaned.notFailed e)
  | stopped isEarly part _ _ _ moved => exact ⟨moved, _, isEarly, part⟩

/-- A flush that gives an answer has stored the record and moved the pointer, and then removed
nothing but stale nodes. -/
theorem flush_done {root : Digest} (truthful : w.conduct.lies = [])
    (flushed : flush codec w = (.done root, w')) :
    root = (recordRoot codec w.pins).digest ∧ w'.pins = recorded codec w.pins ∧
      w'.records = w.records.insert pointerKey root.bytes ∧ w'.conduct = w.conduct ∧
      ∃ s gone, keepAll bs w.store = (.ok (), s) ∧
        gone.Sublist (stale w.pins (recorded codec w.pins).internal) ∧
        w'.store = s.dropAll gone := by
  have flushes := flush_run truthful stores
  rw [flushed] at flushes
  cases flushes with
  | stopped _ _ _ notDone => exact absurd rfl (notDone root)
  | @goesOn between _ _ kept moved _ cleaned =>
    obtain ⟨rfl, taken⟩ := cleaned.done rfl
    obtain ⟨gone, sub, dropped⟩ := cleaned.gone
    refine ⟨rfl, ?_, ?_, cleaned.conduct.trans moved.conduct, between.store, gone,
      kept, sub, dropped⟩
    · rw [taken, pins_pointAt, moved.pins]
      rfl
    · rw [cleaned.records, pointAt, moved.records]

/-- Where storage is honest, a flush goes through if the record can be stored, and removes all stale
nodes that can be removed. -/
theorem flush_through {s : ObjectStore} (honest : w.conduct = .honest)
    (kept : keepAll bs w.store = (.ok (), s)) :
    ∃ w', flush codec w = (.done (recordRoot codec w.pins).digest, w') ∧
      w'.pins = recorded codec w.pins ∧
      w'.records = w.records.insert pointerKey (recordRoot codec w.pins).digest.bytes ∧
      w'.store = s.dropAll (stale w.pins (recorded codec w.pins).internal) := by
  have truthful := World.truthful_of_honest honest
  have flushes := flush_run truthful stores
  rcases run : flush codec w with ⟨outcome, w'⟩
  rw [run] at flushes
  cases flushes with
  | stopped _ _ _ _ stuck =>
    obtain ⟨f, failed⟩ := stuck honest
    cases kept.symm.trans failed
  | goesOn kept' moved _ cleaned =>
    cases kept.symm.trans kept'
    obtain ⟨rfl, dropped⟩ := cleaned.honest (moved.conduct.trans honest)
    obtain ⟨-, taken, records, -⟩ := flush_done stores truthful run
    exact ⟨w', rfl, taken, records, dropped⟩

end Outcomes

/-- Where storage is honest and nothing is in the way of blocks, a flush goes through. -/
theorem flush_of_usable (codec : Codec) (honest : w.conduct = .honest) (usable : w.store.Usable) :
    ∃ root w', flush codec w = (.done root, w') := by
  obtain ⟨bs, -, stores⟩ := stores_storeRecord codec w.pins
  obtain ⟨s, kept, -⟩ := usable.keepAll bs
  obtain ⟨w', run, -⟩ := flush_through stores honest kept
  exact ⟨_, w', run⟩

/-- A flush that gives an answer puts nothing in the way of blocks. -/
theorem usable_of_flush {root : Digest} (truthful : w.conduct.lies = [])
    (flushed : flush codec w = (.done root, w')) (usable : w.store.Usable) : w'.store.Usable := by
  obtain ⟨bs, -, stores⟩ := stores_storeRecord codec w.pins
  obtain ⟨-, -, -, -, s, gone, kept, -, dropped⟩ := flush_done stores truthful flushed
  obtain ⟨s', kept', usable'⟩ := usable.keepAll bs
  cases kept.symm.trans kept'
  exact dropped ▸ dropAll_induction ObjectStore.Usable.delete usable' gone

/-- What a flush answers, in whatever storage. -/
theorem flush_answer {root : Digest} (flushed : flush codec w = (.done root, w')) :
    root = (recordRoot codec w.pins).digest ∧
      w'.pins.internal = (recorded codec w.pins).internal := by
  obtain ⟨bs, -, stores⟩ := stores_storeRecord codec w.pins
  rw [flush_eq] at flushed
  obtain ⟨⟨pins, root', internal⟩, between, committed, flushed⟩ := done_of_bind flushed
  obtain ⟨_, _, read, committed⟩ := done_of_bind committed
  cases read
  obtain ⟨_, _, stored, committed⟩ := done_of_bind committed
  cases stores.answer stored
  obtain ⟨_, _, -, committed⟩ := done_of_bind committed
  cases committed
  obtain ⟨_, _, -, flushed⟩ := done_of_bind flushed
  obtain ⟨_, _, -, flushed⟩ := done_of_bind flushed
  obtain ⟨_, _, changed, flushed⟩ := done_of_bind flushed
  cases changed
  cases flushed
  exact ⟨rfl, rfl⟩

/-! ## A flush that fails, and a flush after it -/

/-- A flush that fails has left the pins, the records and every block that could be read as they
were, and there is nothing new in the store but nodes of the record that it was to write.  Once
storage works again, flushing comes to just what it would have come to if it had worked all along;
if nothing is in the way of blocks, it goes through. -/
theorem flush_retry (codec : Codec) {w w' : World} {e : Error} (truthful : w.conduct.lies = [])
    (failed : flush codec w = (.failed e, w')) :
    w'.pins = w.pins ∧ w'.records = w.records ∧
    (∀ d data, w.store.block? d = some data → w'.store.block? d = some data) ∧
    (∀ d, w'.store.held d = w.store.held d ∨
      ∃ n ∈ recordNodes codec w.pins, n.digest = d ∧ w'.store.held d = some n.encode) ∧
    (∀ root v, flush codec w.repaired = (.done root, v) →
      ∃ v', flush codec w'.repaired = (.done root, v') ∧ v'.pins = v.pins ∧
        v'.records = v.records ∧ v'.store = v.store) ∧
    (w.store.Usable → ∃ root v, flush codec w.repaired = (.done root, v)) := by
  obtain ⟨bs, members, stores⟩ := stores_storeRecord codec w.pins
  obtain ⟨moved, early, isEarly, part⟩ := flush_failed stores truthful failed
  have gains : ObjectStore.Gains { data | data ∈ early } w.store w'.store :=
    part ▸ gains_keepAll early w.store
  refine ⟨moved.pins, moved.records, fun _ _ => gains.block?, fun d => ?_, fun root v again => ?_,
    flush_of_usable (w := w.repaired) codec rfl⟩
  · refine (gains.held d).imp_right fun ⟨data, inside, named, there⟩ => ?_
    obtain ⟨n, isNode, rfl⟩ := (members data).mp (isEarly.subset inside)
    exact ⟨n, isNode, named, there⟩
  · obtain ⟨rfl, -, -, -, s, -, kept, -⟩ := flush_done (w := w.repaired) stores rfl again
    obtain ⟨_, run, pins, records, store⟩ := flush_through (w := w.repaired) stores rfl kept
    cases again.symm.trans run
    -- Making sure of all blocks after a first part of them comes to the same store.
    have kept' : keepAll bs w'.store = (.ok (), s) := part ▸ keepAll_resume isEarly kept
    have stores' : Stores bs ((recordRoot codec w'.pins).digest, (recorded codec w'.pins).internal)
        (storeRecord codec w'.pins) := moved.pins ▸ stores
    obtain ⟨v', run', pins', records', store'⟩ := flush_through (w := w'.repaired) stores' rfl kept'
    have same : w'.repaired.pins = w.pins := moved.pins
    have same' : w'.repaired.records = w.records := moved.records
    rw [same] at run' pins' records' store'
    rw [same'] at records'
    exact ⟨v', run', pins'.trans pins.symm, records'.trans records.symm, store'.trans store.symm⟩

/-! ### Storage that fails in the middle -/

/-- Whether a program has failed. -/
def isFailed {ε α : Type} : Outcome ε α → Bool
  | .failed _ => true
  | _ => false

/-- A world in which pins have been written down and one has been added, with storage that fails
once, at the eighth call. -/
def brokenWorld : World :=
  { laterWorld with
    conduct := ⟨fun clock _ => if clock = 7 then .fail .missing else .proceed, [], false⟩ }

theorem usable_laterWorld : laterWorld.store.Usable := by
  obtain ⟨root, v, flushed⟩ := exists_done isDone_flush_firstWorld
  have usable : v.store.Usable := usable_of_flush rfl flushed trivial
  rw [laterWorld, flushed]
  exact usable

theorem usable_brokenWorld : brokenWorld.store.Usable := by
  -- For any world, so that what the first flush leaves is not evaluated.
  have kept : ∀ (w : World) (conduct : Conduct), w.store.Usable →
      ({ w with conduct } : World).store.Usable := fun _ _ => id
  exact kept _ _ usable_laterWorld

theorem exists_failed_brokenWorld : ∃ e w', flush narrow brokenWorld = (.failed e, w') := by
  have failed : isFailed (flush narrow brokenWorld).1 = true := by decide +kernel
  rcases run : flush narrow brokenWorld with ⟨a | e | _, w'⟩
  · rw [run] at failed
    cases failed
  · exact ⟨e, w', rfl⟩
  · rw [run] at failed
    cases failed

/-- A flush that fails at the eighth call, and a flush after it. -/
theorem flush_retry_brokenWorld :
    ∃ e w' root v v', flush narrow brokenWorld = (.failed e, w') ∧
      w'.pins = brokenWorld.pins ∧ w'.records = brokenWorld.records ∧
      flush narrow brokenWorld.repaired = (.done root, v) ∧
      flush narrow w'.repaired = (.done root, v') ∧ v'.pins = v.pins ∧ v'.records = v.records ∧
      v'.store = v.store := by
  obtain ⟨e, w', failed⟩ := exists_failed_brokenWorld
  obtain ⟨pins, records, -, -, retry, through⟩ := flush_retry narrow rfl failed
  obtain ⟨root, v, run⟩ := through usable_brokenWorld
  obtain ⟨v', run', pins', records', store'⟩ := retry root v run
  exact ⟨e, w', root, v, v', failed, pins, records, run, run', pins', records', store'⟩

/-! ## A flush after one that went through -/

theorem stale_self (pins : Pins) : stale pins pins.internal = [] := by
  refine List.eq_nil_iff_forall_not_mem.mpr fun d isStale => ?_
  exact not_stale_of_mem_internal (mem_internal_of_stale isStale) isStale

theorem cleanUp_of_stale_eq_nil {pins : Pins} {internal : Digests} (none : stale pins internal = [])
    (root : Digest) : ∃ w', cleanUp pins root internal w = (.done root, w') ∧
      w'.store = w.store ∧ w'.records = w.records ∧
      w'.pins = { w.pins with internal, root := some root } := by
  rw [cleanUp, none]
  exact ⟨_, rfl, rfl, rfl, rfl⟩

/-- Where all blocks of the record are there, a commit goes through without anything being written
but the pointer. -/
theorem commit_settled
    (stores : Stores bs ((recordRoot codec w.pins).digest, (recorded codec w.pins).internal)
      (storeRecord codec w.pins))
    (there : ∀ data ∈ bs, w.store.Shows (Digest.of data))
    (obliging : w.conduct.RefusesOnlyChanges) :
    ∃ answer w', commit codec w = (.done answer, w') := by
  obtain ⟨between, stored, untouched⟩ := stores.settled obliging there
  have truthful : between.conduct.lies = [] := untouched.conduct ▸ obliging.truthful
  have called : Storage.call (.putRecord pointerKey) between = (.done (), between.ticked) := by
    refine Storage.call_proceeds ?_
    rw [untouched.conduct]
    exact obliging.proceeds _ _ nofun nofun
  have pointed : Storage.putRecord pointerKey (recordRoot codec w.pins).digest.bytes between
      = (.done (), pointAt (recordRoot codec w.pins).digest between.ticked) := by
    rw [Storage.putRecord_eq truthful, bind_of_done called]
    rfl
  exact ⟨_, _, (bind_of_done stored).trans ((bind_of_done (mapError_of_done pointed)).trans rfl)⟩

/-- A flush of pins that are written down, with all blocks of the record there and the pointer at
its root, changes nothing, whatever becomes of it.  It goes through if no call is refused but, it
may be, one that writes or removes an object. -/
theorem flush_settled
    (stores : Stores bs ((recordRoot codec w.pins).digest, (recorded codec w.pins).internal)
      (storeRecord codec w.pins))
    (there : ∀ data ∈ bs, w.store.Shows (Digest.of data)) (flushed : w.pins = recorded codec w.pins)
    (pointed : pointer? w.records = some (recordRoot codec w.pins).digest.bytes)
    (truthful : w.conduct.lies = []) {outcome : Outcome Error Digest}
    (run : flush codec w = (outcome, w')) :
    w'.store = w.store ∧ w'.records = w.records ∧ w'.pins = w.pins ∧
      (w.conduct.RefusesOnlyChanges → outcome = .done (recordRoot codec w.pins).digest) := by
  have flushes := flush_run truthful stores
  rw [run] at flushes
  cases flushes with
  | @goesOn between _ _ kept moved cleaning =>
    have same : w.store = between.store :=
      (Prod.mk.inj ((keepAll_settled there).symm.trans kept)).2
    have nothing : stale w.pins (recorded codec w.pins).internal = [] := by
      rw [← flushed]
      exact stale_self w.pins
    obtain ⟨v, cleaned, store, records, pins⟩ := cleanUp_of_stale_eq_nil
      (w := pointAt (recordRoot codec w.pins).digest between) nothing
      (recordRoot codec w.pins).digest
    cases cleaned.symm.trans cleaning
    refine ⟨store.trans same.symm, ?_, ?_, fun _ => rfl⟩
    · rw [records, pointAt, moved.records]
      exact Records.insert_eq_self pointed
    · rw [pins, pins_pointAt, moved.pins]
      exact flushed.symm
  | stopped isEarly part notCommitted _ _ moved =>
    refine ⟨?_, moved.records, moved.pins, fun obliging => ?_⟩
    · rw [part, keepAll_settled fun data inside => there data (isEarly.subset inside)]
    · obtain ⟨answer, v, done⟩ := commit_settled stores there obliging
      exact absurd done (notCommitted answer v)

/-- What a flush answers follows from the pins as sets: other pins with the same members are given
the same root and the same record, in whatever storage, and digests are written alike in any order.
A flush after one that went through finds nothing stale.  Whatever becomes of it, it leaves the
store, the records and the pins as they are, and it can answer nothing but the same root; it does so
even where every call is refused that writes or removes an object. -/
theorem flush_determined (codec : Codec) {w w' : World} {root : Digest}
    (truthful : w.conduct.lies = []) (flushed : flush codec w = (.done root, w')) :
    (∀ v v' root', v.pins.direct = w.pins.direct → v.pins.recursive = w.pins.recursive →
      flush codec v = (.done root', v') → root' = root ∧ v'.pins.internal = w'.pins.internal) ∧
    (∀ ds : List Digest, (ds.Perm w.pins.direct.toList →
        codec.writeSet ds = codec.writeSet w.pins.direct.toList) ∧
      (ds.Perm w.pins.recursive.toList →
        codec.writeSet ds = codec.writeSet w.pins.recursive.toList)) ∧
    stale w'.pins w'.pins.internal = [] ∧
    ∀ (conduct : Conduct) outcome v, conduct.lies = [] →
      flush codec { w' with conduct } = (outcome, v) →
      v.store = w'.store ∧ v.records = w'.records ∧ v.pins = w'.pins ∧
        (∀ root', outcome = .done root' → root' = root) ∧
        (conduct.RefusesOnlyChanges → outcome = .done root) := by
  obtain ⟨bs, members, stores⟩ := stores_storeRecord codec w.pins
  obtain ⟨rfl, pins, records, -, s, gone, kept, sub, dropped⟩ := flush_done stores truthful flushed
  have settled : w'.pins = recorded codec w'.pins := by
    rw [pins]
    rfl
  have root : recordRoot codec w'.pins = recordRoot codec w.pins := by
    rw [pins]
    rfl
  have stores' : Stores bs ((recordRoot codec w'.pins).digest, (recorded codec w'.pins).internal)
      (storeRecord codec w'.pins) := by
    rw [pins]
    exact stores
  have there : ∀ data ∈ bs, w'.store.Shows (Digest.of data) := by
    intro data inside
    obtain ⟨n, isNode, rfl⟩ := (members data).mp inside
    have apart : n.digest ∉ gone := fun removed =>
      not_stale_of_mem_internal (mem_internal_recorded isNode) (sub.subset removed)
    exact dropped ▸ shows_dropAll apart (shows_of_keepAll kept inside)
  refine ⟨fun v v' root' direct recursive flushed' => ?_,
    fun ds => ⟨codec.writeSet_perm, codec.writeSet_perm⟩, stale_self w'.pins,
    fun conduct outcome v truthful' run => ?_⟩
  · obtain ⟨rfl, internal⟩ := flush_answer flushed'
    have same : recordRoot codec v.pins = recordRoot codec w.pins := by
      rw [recordRoot, recordRoot, direct, recursive]
    have nodes : recordNodes codec v.pins = recordNodes codec w.pins := by
      rw [recordNodes, recordNodes, same, direct, recursive]
    rw [internal, pins, recorded, recorded, nodes, same]
    exact ⟨rfl, rfl⟩
  · have pointed : pointer? w'.records = some (recordRoot codec w'.pins).digest.bytes := by
      rw [pointer?, records, root, Std.ExtTreeMap.getElem?_insert_self]
    obtain ⟨store', records', pins', answers⟩ :=
      flush_settled (w := { w' with conduct }) stores' there
      settled pointed truthful' run
    refine ⟨store', records', pins', fun root' done => ?_, fun obliging => ?_⟩
    · rw [done] at run
      exact (flush_answer run).1.trans (congrArg Node.digest root)
    · rw [answers obliging]
      exact congrArg (fun n : Node => Outcome.done n.digest) root

/-! ### The same pins after other flushes -/

/-- Storage that stops at any call that writes or removes an object. -/
def sealed : Conduct :=
  ⟨fun _ op => match op with
    | .put _ | .delete _ => .halt
    | _ => .proceed, [], false⟩

theorem refusesOnlyChanges_sealed : sealed.RefusesOnlyChanges := by
  refine ⟨rfl, fun clock op notPut notDelete => ?_⟩
  cases op with
  | put path => exact absurd rfl (notPut path)
  | delete path => exact absurd rfl (notDelete path)
  | _ => rfl

/-- A world in which two sets of pins have been written down one after the other, and the pins have
then been made the first ones again. -/
def otherWorld : World :=
  { (flush narrow laterWorld.repaired).2 with
    pins := { (flush narrow laterWorld.repaired).2.pins with
      direct := firstPins.direct, recursive := firstPins.recursive } }

theorem pins_otherWorld : otherWorld.pins.direct = firstPins.direct ∧
    otherWorld.pins.recursive = firstPins.recursive := by
  -- For any pins, so that what the flush leaves is not evaluated.
  have changed : ∀ (w : World) (pins : Pins) (direct recursive : Digests),
      ({ w with pins := { pins with direct, recursive } } : World).pins.direct = direct ∧
        ({ w with pins := { pins with direct, recursive } } : World).pins.recursive = recursive :=
    fun _ _ _ _ => ⟨rfl, rfl⟩
  exact changed _ _ _ _

/-- A flush of a usable store, once the storage works, leaves it working and usable. -/
theorem flush_repaired (codec : Codec) (usable : w.store.Usable) :
    ∃ root between, flush codec w.repaired = (.done root, between) ∧ between.conduct = .honest ∧
      between.store.Usable := by
  obtain ⟨bs, -, stores⟩ := stores_storeRecord codec w.repaired.pins
  obtain ⟨root, between, flushed⟩ := flush_of_usable (w := w.repaired) codec rfl usable
  obtain ⟨-, -, -, honest, -⟩ := flush_done stores rfl flushed
  exact ⟨root, between, flushed, honest, usable_of_flush rfl flushed usable⟩

/-- The same pins are written down in an empty store and after other flushes, and once more in
storage that allows no change. -/
theorem flush_determined_firstWorld :
    ∃ root w' u v, flush narrow firstWorld = (.done root, w') ∧
      flush narrow otherWorld = (.done root, u) ∧ u.pins.internal = w'.pins.internal ∧
      flush narrow { w' with conduct := sealed } = (.done root, v) ∧
      v.store = w'.store ∧ v.records = w'.records ∧ v.pins = w'.pins := by
  obtain ⟨root, w', flushed⟩ := exists_done isDone_flush_firstWorld
  obtain ⟨alike, -, -, again⟩ := flush_determined narrow rfl flushed
  obtain ⟨root', u, other⟩ : ∃ root' u, flush narrow otherWorld = (.done root', u) := by
    obtain ⟨_, between, before, honest, usable⟩ := flush_repaired narrow usable_laterWorld
    rw [otherWorld, before]
    exact flush_of_usable narrow honest usable
  obtain ⟨rfl, internal⟩ := alike otherWorld u root' pins_otherWorld.1 pins_otherWorld.2 other
  rcases run : flush narrow { w' with conduct := sealed } with ⟨outcome, v⟩
  obtain ⟨store, records, pins, -, answers⟩ := again sealed outcome v rfl run
  cases answers refusesOnlyChanges_sealed
  exact ⟨root', w', u, v, flushed, other, internal, run, store, records, pins⟩

end Pin

end PinnedStore
