import PinnedStore.Proofs.Pin.Record

/-!
# The pins on record

The pointer names the root of a record, and so at most one state of the pins is on record; where
there is no record, that is the state without pins.  It stays on record for as long as the nodes of
the record are kept, and it is what a pinner finds that is opened.

* `ObjectStore.Keeps`: blocks that are needed are still there.
* `Pin.InForce`: these pins are on record.
* `Pin.openRecord_honest`, `Pin.openRecord_done`: opening finds the pins on record, and no others.
-/

namespace PinnedStore

open Program

/-! ## What is kept -/

namespace ObjectStore

/-- Blocks that are needed are still there. -/
def Keeps (needed : Digest → Prop) (s s' : ObjectStore) : Prop :=
  ∀ d, needed d → ∀ data, s.block? d = some data → s'.block? d = some data

variable {needed : Digest → Prop} {s s' : ObjectStore}

instance : IsPreorder ObjectStore (Keeps needed) where
  refl _ _ _ _ h := h
  trans _ _ _ first second d isNeeded data h := second d isNeeded data (first d isNeeded data h)

theorem Grows.keeps (grows : Grows s s') : Keeps needed s s' :=
  fun _ _ _ => grows.block?

theorem Sheds.keeps {gone : Digest → Prop} (sheds : Sheds gone s s')
    (apart : ∀ d, needed d → ¬ gone d) : Keeps needed s s' :=
  fun d isNeeded _ => sheds.block? (apart d isNeeded)

theorem Keeps.mono {needed' : Digest → Prop} (keeps : Keeps needed s s')
    (weaker : ∀ d, needed' d → needed d) : Keeps needed' s s' :=
  fun d isNeeded => keeps d (weaker d isNeeded)

end ObjectStore

/-! ## The pins on record -/

namespace Pin

/-- These are the pins on record, or there is no record and there are no pins. -/
inductive InForce (store : ObjectStore) (records : Records) : Pins → Prop
  | unset (unset : pointer? records = none) : InForce store records .none
  | record {root : Digest} {pins : Pins} (pointed : pointer? records = some root.bytes)
    (record : Record store.node? root pins) : InForce store records pins

variable {known : Set Bytes} {w w' : World} {store store' : ObjectStore} {records : Records}
  {pins pins' : Pins} {timeout : Nat}

theorem InForce.unique (inForce : InForce store records pins)
    (inForce' : InForce store records pins') :
    pins = pins' := by
  cases inForce with
  | unset unset =>
    cases inForce' with
    | unset _ => rfl
    | record pointed _ => cases unset.symm.trans pointed
  | record pointed record =>
    cases inForce' with
    | unset unset => cases unset.symm.trans pointed
    | record pointed' record' =>
      have same := Digest.ext (Option.some.inj (pointed.symm.trans pointed'))
      exact record.unique (same ▸ record')

theorem InForce.keeps (inForce : InForce store records pins)
    (keeps : ObjectStore.Keeps (· ∈ pins.internal) store store') : InForce store' records pins := by
  cases inForce with
  | unset unset => exact .unset unset
  | record pointed record =>
    exact .record pointed (record.congr fun d inside n => Graph.node?_mono (keeps d inside))

/-- The pins that are on record are those that are read. -/
theorem openRecord_honest (timeout : Nat) (honest : w.conduct = .honest)
    (inForce : InForce w.store w.records pins) :
    ∃ w', openRecord timeout w = (.done (), w') ∧ w'.pins = pins ∧ w'.store = w.store ∧
      w'.records = w.records ∧ w'.conduct = .honest := by
  cases inForce with
  | unset unset =>
    have run : (attempt (load timeout) : Program Error (Except Error Unit)) w
        = (.done (.error .noRecord), w.ticked) := by
      rw [attempt, load_without_record timeout honest unset]
    rw [openRecord, bind_of_done run]
    exact ⟨_, rfl, rfl, rfl, rfl, honest⟩
  | record pointed record =>
    obtain ⟨w', loaded, rest⟩ := load_honest timeout honest pointed record
    have run : (attempt (load timeout) : Program Error (Except Error Unit)) w
        = (.done (.ok ()), w') := by
      rw [attempt, loaded]
    rw [openRecord, bind_of_done run]
    exact ⟨w', rfl, rest⟩

/-- Reading the pins changes nothing else, however storage behaves. -/
theorem does_openRecord (timeout : Nat) : Does known World.SameStorage (openRecord timeout) := by
  refine (does_load timeout).attempt.bind fun result => ?_
  rcases result with e | _
  · cases e with
    | noRecord => exact fun w sound =>
        ⟨⟨rfl, rfl, rfl⟩, sound.truthful, sound.addressed, sound.blocks⟩
    | _ => exact .fail _
  · exact .pure _

/-- Where pins are read, they are those on record. -/
theorem openRecord_done (sound : w.Sound known) (h : openRecord timeout w = (.done (), w')) :
    InForce w.store w.records w'.pins := by
  obtain ⟨result, between, tried, h⟩ := done_of_bind h
  rcases result with e | _
  · cases e with
    | noRecord =>
      cases h
      exact .unset (pointer_of_load sound.truthful (failed_of_attempt tried))
    | _ => cases h
  · cases h
    obtain ⟨root, pointed, record⟩ := record_of_load sound (done_of_attempt tried)
    exact .record pointed record

end Pin

end PinnedStore
