import PinnedStore.Proofs.Collect.Accounting
import PinnedStore.Proofs.Storage.Reading

/-!
# Stray files

Listing the blocks of a store reads every path that is listed.  The first path that can not be read
ends it, so one such path is enough to make the listing fail, and with it every sweep, before
anything has been removed.  All other stray files are passed over.

Which paths can not be read depends on the names alone.  In a directory there are none: names are in
base 32, and whatever is put there the blocks can be listed.  Objects held in memory have names in
base 64, and there every path under the common directory counts whose name is not the text of some
bytes.

* `Collect.sweep_of_readable`: nothing else makes a sweep fail.
* `Collect.stray_paths`: which paths can not be read, and what becomes of listings and sweeps.
-/

namespace PinnedStore

open Program

namespace Collect

variable {w : World}

theorem sweep_of_readable (kept : Digests) (dryRun : Bool) (honest : w.conduct = .honest)
    (readable : ¬ w.store.Unreadable) :
    ∃ report w', sweep kept dryRun w = (.done report, w') := by
  obtain ⟨ds, listed, -⟩ := Blocks.list_of_readable (World.truthful_of_honest honest)
    (World.proceeds_of_honest honest _) readable
  cases dryRun with
  | true => exact ⟨_, _, sweep_dry listed []⟩
  | false =>
    obtain ⟨errors, w', run, -⟩ := sweep_of_list kept honest listed
    exact ⟨_, w', run⟩

/-- What stray files do.  A path is read as a block just if its name stands for the bytes of the
digest, and it is passed over just if there is no such digest and, where names are in base 64, its
name is the text of some bytes; reading it fails if it is not even that.  A store lists its blocks
and can be swept if no path that is listed can not be read, and both fail, with nothing changed, if
there is one.  In a directory there is none. -/
theorem stray_paths (kept : Digests) (dryRun : Bool) (honest : w.conduct = .honest) :
    (∀ features path,
      (∀ d, BlockPath.read features path = .ok (some d) ↔
        ∃ chars, BlockPath.HasName path chars ∧ BlockPath.Spells features chars d.bytes) ∧
      (BlockPath.read features path = .ok none ↔
        (∀ d : Digest, ∀ chars, BlockPath.HasName path chars →
          ¬ BlockPath.Spells features chars d.bytes) ∧
        (features.caseSensitive = true → ∀ chars, BlockPath.HasName path chars →
          ∃ bytes, BlockPath.Spells features chars bytes)) ∧
      (BlockPath.read features path = .error .invalidName ↔ features.caseSensitive = true ∧
        ∃ chars, BlockPath.HasName path chars ∧ ∀ bytes, ¬ BlockPath.Spells features chars bytes)) ∧
    (w.store.Unreadable →
      Blocks.list w = (.failed (.io .invalidName), w.ticked) ∧
      sweep kept dryRun w = (.failed (.io .invalidName), w.ticked)) ∧
    (¬ w.store.Unreadable →
      (∃ ds, Blocks.list w = (.done ds, w.ticked) ∧ ∀ d, d ∈ ds ↔
        ∃ path ∈ w.store.list, BlockPath.read w.store.features path = .ok (some d)) ∧
      ∃ report w', sweep kept dryRun w = (.done report, w')) ∧
    ∀ s, ¬ (ObjectStore.directory s).Unreadable := by
  have truthful := World.truthful_of_honest honest
  have proceeds := World.proceeds_of_honest honest .list
  refine ⟨fun features path => ?_, fun unreadable => ?_, fun readable => ?_, fun s unreadable => ?_⟩
  · exact ⟨fun d => BlockPath.read_eq_some_iff, BlockPath.read_eq_none_iff,
      BlockPath.read_eq_error_iff⟩
  · exact ⟨Blocks.list_of_unreadable truthful proceeds unreadable,
      sweep_of_unreadable kept dryRun truthful proceeds unreadable⟩
  · obtain ⟨ds, listed, read⟩ := Blocks.list_of_readable truthful proceeds readable
    exact ⟨⟨ds, listed, fun d => Blocks.mem_digestsOf read⟩,
      sweep_of_readable kept dryRun honest readable⟩
  · obtain ⟨path, -, fault⟩ := unreadable
    obtain ⟨sensitive, -⟩ := BlockPath.read_eq_error_iff.mp fault
    cases sensitive

/-! ### A note among blocks -/

/-- A store in memory with one object, under the common directory and no block. -/
def notedStore : ObjectStore := (ObjectStore.inMemory.put "block3/notes.txt" []).2

/-- A world with this store. -/
def notedWorld : World := World.fresh notedStore ∅

theorem list_notedStore : notedStore.list = ["block3/notes.txt"] ∧
    BlockPath.read notedStore.features "block3/notes.txt" = .error .invalidName := by
  decide +kernel

/-- A stray file that is no block, and neither the listing of the blocks nor a sweep gives an
answer. -/
theorem not_passed_over :
    (∀ d : Digest, ∀ path ∈ notedStore.list, BlockPath.read notedStore.features path ≠ .ok (some d)) ∧
    (∀ path ∈ notedStore.list, BlockPath.read notedStore.features path ≠ .ok none) ∧
    (∀ ds w', Blocks.list notedWorld ≠ (.done ds, w')) ∧
    ∀ dryRun report w', sweep ∅ dryRun notedWorld ≠ (.done report, w') := by
  obtain ⟨listed, fault⟩ := list_notedStore
  have unreadable : notedWorld.store.Unreadable :=
    ⟨"block3/notes.txt", listed ▸ List.mem_singleton_self _, fault⟩
  refine ⟨fun d path inside isRead => ?_, fun path inside isRead => ?_, fun ds w' run => ?_,
    fun dryRun report w' run => ?_⟩
  · rw [listed, List.mem_singleton] at inside
    cases fault.symm.trans (inside ▸ isRead)
  · rw [listed, List.mem_singleton] at inside
    cases fault.symm.trans (inside ▸ isRead)
  · cases (Blocks.list_of_unreadable rfl rfl unreadable).symm.trans run
  · cases (sweep_of_unreadable ∅ dryRun rfl rfl unreadable).symm.trans run

/-- In this world both fail. -/
theorem stray_paths_notedWorld :
    Blocks.list notedWorld = (.failed (.io .invalidName), notedWorld.ticked) ∧
    sweep ∅ true notedWorld = (.failed (.io .invalidName), notedWorld.ticked) := by
  obtain ⟨listed, fault⟩ := list_notedStore
  exact (stray_paths (w := notedWorld) ∅ true rfl).2.1
    ⟨"block3/notes.txt", listed ▸ List.mem_singleton_self _, fault⟩

end Collect

end PinnedStore
