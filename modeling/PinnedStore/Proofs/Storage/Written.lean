import PinnedStore.Proofs.Storage.Listing

/-!
# Stores that have been written block by block

A store into which nothing but blocks has been written, from the time it was empty, lists nothing
but blocks that can be read.  In memory this is plain.  In a directory a write that fails may leave
the file next to its target behind; its ending keeps it from being listed.  A write that succeeds
has found the way to its target, no way is ever closed, and so whatever stands at the place of a
block can be read.

* `ObjectStore.Regular`: everything that is listed is a block that can be read.
* `ObjectStore.Orderly`: what is listed as a block is a block, each of them listed once.
* `Blocks.does_put_regular`, `Blocks.does_remove_regular`: writing and removing blocks keeps it so.
* `ObjectStore.Written`, `Written.regular`: stores that have been written block by block.
* `Blocks.list_of_regular`: the blocks of such a store can be listed, and all of them can be read.
-/

namespace PinnedStore

open Disk

/-! ## Files below a base -/

namespace Directory

variable {s s' : Directory} {d : Digest} {data : Bytes}

/-- The files below the base are blocks that can be found, and files that are being written. -/
def Tidy (s : Directory) : Prop :=
  ∀ names content, names ≠ [] → s.disk.entry? (s.origin ++ names) = some (.file content) →
    (∃ d, s.origin ++ names = s.place d ∧ s.disk.locate (s.target d) = .ok (s.place d)) ∨
      ∃ d, s.origin ++ names = s.beside d

/-- The files of a directory of blocks can be told apart by the texts of their paths. -/
theorem Tidy.names_intercalate (tidy : s.Tidy) {names : List String}
    (h : names ∈ s.disk.filesBelow s.origin) :
    Path.names ("/".intercalate names).toList = names := by
  obtain ⟨content, there⟩ := mem_filesBelow.mp h
  by_cases none : names = []
  · rw [none]
    decide
  · have entry : s.disk.entry? (s.origin ++ names) = some (.file content) := by
      rw [Disk.entry?, if_neg (by simp [none])]
      exact there
    rcases tidy names content none entry with ⟨d, same, -⟩ | ⟨d, same⟩
    · rw [List.append_cancel_left same, BlockPath.intercalate_directoryNames]
      rfl
    · rw [beside_eq] at same
      rw [List.append_cancel_left same, BlockPath.intercalate_stagedPath, String.toList_ofList]

/-- What has been found can be found later on. -/
theorem Tidy.later (tidy : s.Tidy) (later : Later s s') {names : List String} {content : Bytes}
    (nonempty : names ≠ []) (there : s.disk.entry? (s.origin ++ names) = some (.file content)) :
    (∃ d, s'.origin ++ names = s'.place d ∧ s'.disk.locate (s'.target d) = .ok (s'.place d)) ∨
      ∃ d, s'.origin ++ names = s'.beside d := by
  simp only [later.origin, later.place, later.beside, later.target]
  rcases tidy names content nonempty there with ⟨d, same, located⟩ | staged
  · exact Or.inl ⟨d, same, later.keeps.locate located⟩
  · exact Or.inr staged

theorem Tidy.put (tidy : s.Tidy) (clear : s.Clear) {result : Except Failure Unit}
    (h : s.put (BlockPath.write features d) data = (result, s')) : s'.Tidy := by
  obtain ⟨base, stages⟩ := put_stages h
  have made := onlyMakes_prepared clear d
  have later : Later s s' := ⟨base, made.keepsDirectories.trans stages.keeps⟩
  intro names content nonempty there
  -- Besides directories a write makes two files: one next to the place of the block, and the block.
  by_cases isStaged : s.origin ++ names = s.beside d
  · refine Or.inr ⟨d, ?_⟩
    rw [later.origin, later.beside, isStaged]
  by_cases isPlace : s.origin ++ names = s.place d
  · rw [later.origin, isPlace] at there
    rcases stages.place with ⟨same, -⟩ | ⟨-, located⟩
    · rw [same, entry?_prepared_place clear, ← isPlace] at there
      exact tidy.later later nonempty there
    · refine Or.inl ⟨d, ?_, ?_⟩
      · rw [later.origin, later.place, isPlace]
      · rw [later.target, later.place]
        exact located
  · rw [later.origin, stages.entry? isStaged isPlace] at there
    rcases made.entry? (s.origin ++ names) with same | ⟨-, stands, -⟩
    · exact tidy.later later nonempty (same ▸ there)
    · cases stands.symm.trans there

theorem Tidy.delete (tidy : s.Tidy) (h : s.delete (BlockPath.write features d) = .ok s') :
    s'.Tidy := by
  obtain ⟨later, -⟩ := delete_spec h
  rcases delete_cases h with rfl | ⟨data, -, rfl⟩
  · exact tidy
  · intro names content nonempty there
    rw [later.origin, entry?_erase (s.place_ne_nil d)] at there
    split at there
    · cases there
    · exact tidy.later later nonempty there

end Directory

namespace ObjectStore

variable {s s' : ObjectStore} {d : Digest} {data : Bytes}

/-- There are no objects but blocks, and what is being written. -/
def Tidy : ObjectStore → Prop
  | .memory objects =>
    ∀ path ∈ objects, ∃ d, path = BlockPath.write (features (.memory objects)) d
  | .directory s => s.Tidy

/-- Everything is held under its digest, and there is nothing else. -/
structure Regular (s : ObjectStore) : Prop where
  addressed : s.ContentAddressed
  tidy : s.Tidy

/-- Whatever is listed as a block is listed once, at the path of the block, and can be read.  What is
no block may be listed as well. -/
structure Orderly (s : ObjectStore) : Prop where
  nodup : s.list.Nodup
  block : ∀ path ∈ s.list, ∀ d, BlockPath.read s.features path = .ok (some d) →
    path = BlockPath.write s.features d ∧ ∃ data, s.block? d = some data

/-- Making sure of a block keeps a store content-addressed. -/
theorem ContentAddressed.keep (addressed : s.ContentAddressed) {result : Except Failure Unit}
    (h : s.keep data = (result, s')) : s'.ContentAddressed := by
  rcases keep_cases h with ⟨rfl, -⟩ | ⟨-, wrote⟩
  · exact addressed
  · exact (put_spec addressed rfl wrote).1.addressed

namespace Regular

theorem put (regular : s.Regular) {result : Except Failure Unit}
    (h : s.put (BlockPath.write s.features (Digest.of data)) data = (result, s')) : s'.Regular := by
  refine ⟨(put_spec regular.addressed rfl h).1.addressed, ?_⟩
  obtain ⟨addressed, tidy⟩ := regular
  cases s with
  | memory objects =>
    cases h
    intro path inside
    rw [Std.ExtTreeMap.mem_insert, Std.compare_eq_iff_eq] at inside
    rcases inside with rfl | before
    · exact ⟨_, rfl⟩
    · exact tidy path before
  | directory s =>
    rcases step : s.put (BlockPath.write Directory.features (Digest.of data)) data with ⟨result', t⟩
    cases (put_directory step).symm.trans h
    exact Directory.Tidy.put tidy addressed.clear step

theorem keep (regular : s.Regular) {result : Except Failure Unit}
    (h : s.keep data = (result, s')) : s'.Regular := by
  rcases keep_cases h with ⟨rfl, -⟩ | ⟨-, wrote⟩
  · exact regular
  · exact regular.put wrote

theorem delete (regular : s.Regular) (h : s.delete (BlockPath.write s.features d) = .ok s') :
    s'.Regular := by
  refine ⟨(delete_spec regular.addressed h).1.addressed, ?_⟩
  have tidy := regular.tidy
  cases s with
  | memory objects =>
    cases h
    intro path inside
    exact tidy path (Std.ExtTreeMap.mem_of_mem_erase inside)
  | directory s =>
    obtain ⟨t, step, rfl⟩ := delete_directory h
    exact Directory.Tidy.delete tidy step

/-- Everything that is listed is a block that can be read, but for the empty path. -/
theorem list (regular : s.Regular) {path : String} (h : path ∈ s.list) :
    path = "" ∨ ∃ d data, path = BlockPath.write s.features d ∧ s.block? d = some data := by
  obtain ⟨addressed, tidy⟩ := regular
  cases s with
  | memory objects =>
    have inside : path ∈ objects := Std.ExtTreeMap.mem_keys.mp h
    obtain ⟨d, rfl⟩ := tidy path inside
    rw [Std.ExtTreeMap.mem_iff_isSome_getElem?] at inside
    obtain ⟨data, there⟩ := Option.isSome_iff_exists.mp inside
    exact Or.inr ⟨d, data, rfl, block?_eq_some.mpr ⟨trivial, there⟩⟩
  | directory s =>
    rcases Directory.mem_list h with empty | ⟨names, content, nonempty, there, rfl, notStaging⟩
    · exact Or.inl empty
    rcases tidy names content nonempty there with ⟨d, same, located⟩ | ⟨d, same⟩
    · have named : names = BlockPath.directoryNames d := List.append_cancel_left same
      rw [same] at there
      refine Or.inr ⟨d, content, ?_, block?_eq_some.mpr ⟨located, held_directory_eq_some.mpr there⟩⟩
      rw [named]
      exact BlockPath.intercalate_directoryNames d
    · rw [Directory.beside_eq] at same
      have named := List.append_cancel_left same
      rw [named, BlockPath.intercalate_stagedPath, String.toList_ofList,
        BlockPath.isStaging_stagedPath] at notStaging
      cases notStaging

/-- Every path is listed once. -/
theorem nodup_list (regular : s.Regular) : s.list.Nodup := by
  cases s with
  | memory objects => exact nodup_keys objects
  | directory s => exact Directory.nodup_list fun _ below => regular.tidy.names_intercalate below

theorem orderly (regular : s.Regular) : s.Orderly where
  nodup := regular.nodup_list
  block path listed d isRead := by
    rcases regular.list listed with rfl | ⟨d', data, rfl, there⟩
    · cases isRead
    · rw [BlockPath.read_write] at isRead
      cases isRead
      exact ⟨rfl, data, there⟩

/-- The paths of a store of blocks can all be read back. -/
theorem not_unreadable (regular : s.Regular) : ¬ s.Unreadable := by
  rintro ⟨path, listed, fault⟩
  rcases regular.list listed with rfl | ⟨d, data, rfl, -⟩
  · cases fault
  · cases (BlockPath.read_write _ d).symm.trans fault

/-- In a store of blocks the way to everything that is held is open. -/
theorem block?_eq_held (regular : s.Regular) (d : Digest) : s.block? d = s.held d := by
  refine Option.ext fun data => block?_eq_some.trans ⟨And.right, fun held => ⟨?_, held⟩⟩
  cases s with
  | memory objects => trivial
  | directory s =>
    have there := held_directory_eq_some.mp held
    rcases regular.tidy _ _ (BlockPath.directoryNames_ne_nil d) there with
      ⟨d', same, located⟩ | ⟨d', same⟩
    · cases s.place_injective same
      exact located
    · exact absurd same.symm (s.beside_ne_place d' d)

end Regular

/-- What was so of the store before is so of it now. -/
def Preserves (P : ObjectStore → Prop) (s s' : ObjectStore) : Prop := P s → P s'

instance {P : ObjectStore → Prop} : IsPreorder ObjectStore (Preserves P) where
  refl _ := id
  trans _ _ _ first second := second ∘ first

end ObjectStore

open Program

namespace Blocks

open ObjectStore

variable {w w' : World} {ds : List Digest}

/-- Writing a block into a store of blocks leaves a store of blocks. -/
theorem does_put_regular (data : Bytes) :
    Does Set.univ (World.Moves (Preserves Regular)) (put data) := by
  intro w sound
  have cases := put_cases sound.truthful data
  generalize (put data w).1 = outcome at cases ⊢
  generalize (put data w).2 = w' at cases ⊢
  have kept : ∀ {result}, w.store.keep data = (result, w'.store) → World.Changes w w' →
      World.Moves (Preserves Regular) w w' ∧ w'.Sound Set.univ := fun kept moved =>
    ⟨⟨fun regular => regular.keep kept, moved.records, moved.pins, moved.conduct⟩,
      moved.truthful sound.truthful, sound.addressed.keep kept, Set.subset_univ _⟩
  cases cases with
  | kept done moved => exact kept done moved
  | stuck stuck moved => exact kept stuck moved
  | refused _ _ moved => exact ⟨moved.moves, moved.sound sound⟩

/-- Removing a block from a store of blocks leaves a store of blocks. -/
theorem does_remove_regular (d : Digest) :
    Does Set.univ (World.Moves (Preserves Regular)) (remove d) := by
  intro w sound
  rcases remove_cases sound.truthful d with ⟨store, removed, run⟩ | ⟨-, same⟩
  · rw [run]
    refine ⟨⟨fun regular => regular.delete removed, rfl, rfl, rfl⟩, sound.truthful, ?_,
      Set.subset_univ _⟩
    exact (delete_spec sound.addressed removed).1.addressed
  · rw [same]
    exact ⟨w.untouched_ticked.moves, w.untouched_ticked.sound sound⟩

section Orderly

variable {s : ObjectStore} (orderly : s.Orderly) (read : digestsOf s.features s.list = .ok ds)

include orderly read

/-- Blocks that are where they belong are listed once each. -/
theorem nodup_of_orderly : ds.Nodup := by
  rw [digestsOf_eq read, List.Nodup, List.pairwise_filterMap]
  refine orderly.nodup.imp_of_mem ?_
  rintro path path' inside inside' apart d isRead d' isRead' rfl
  refine apart ?_
  rw [(orderly.block path inside d (BlockPath.digest?_eq_some.mp isRead)).1,
    (orderly.block path' inside' d (BlockPath.digest?_eq_some.mp isRead')).1]

theorem readable_of_orderly {d : Digest} (h : d ∈ ds) : ∃ data, s.block? d = some data := by
  obtain ⟨path, listed, isRead⟩ := (mem_digestsOf read).mp h
  exact (orderly.block path listed d isRead).2

end Orderly

/-- The blocks of a store of blocks can be listed, and all that are listed can be read. -/
theorem list_of_regular (honest : w.conduct = .honest) (regular : w.store.Regular) :
    ∃ ds, list w = (.done ds, w.ticked) ∧ ∀ d ∈ ds, ∃ data, w.store.block? d = some data := by
  obtain ⟨ds, listed, read⟩ := list_of_readable (World.truthful_of_honest honest)
    (World.proceeds_of_honest honest _) regular.not_unreadable
  exact ⟨ds, listed, fun _ => readable_of_orderly regular.orderly read⟩

end Blocks

/-! ## From an empty store on -/

namespace ObjectStore

/-- A store that has been empty and into which nothing has been written but blocks.  Storage may
have failed or stopped in between, as long as it has told no lies. -/
inductive Written : ObjectStore → Prop
  | memory : Written inMemory
  | directory {s : Directory} (clear : s.Clear)
    (empty : ∀ names, names ≠ [] → s.disk.entry? (s.origin ++ names) = none) :
    Written (.directory s)
  | put {w : World} (before : Written w.store) (truthful : w.conduct.lies = []) (data : Bytes) :
    Written (Blocks.put data w).2.store
  | remove {w : World} (before : Written w.store) (truthful : w.conduct.lies = []) (d : Digest) :
    Written (Blocks.remove d w).2.store

theorem regular_inMemory : inMemory.Regular :=
  ⟨contentAddressed_inMemory, fun _ inside => absurd inside Std.ExtTreeMap.not_mem_empty⟩

/-- A directory that holds no file, with nothing where a block would be, is a store of blocks. -/
theorem regular_directory {s : Directory} (clear : s.Clear)
    (place : ∀ d, s.disk.entry? (s.place d) = none)
    (empty : ∀ names content, names ≠ [] →
      s.disk.entry? (s.origin ++ names) ≠ some (.file content)) : (directory s).Regular := by
  refine ⟨⟨clear, fun {d e} there => ?_⟩, fun names content nonempty there => ?_⟩
  · cases (place d).symm.trans there
  · exact absurd there (empty names content nonempty)

/-- A store that has been written block by block is a store of blocks. -/
theorem Written.regular {s : ObjectStore} (written : s.Written) : s.Regular := by
  induction written with
  | memory => exact regular_inMemory
  | @directory s clear empty =>
    refine regular_directory clear (fun d => empty _ (BlockPath.directoryNames_ne_nil d))
      fun names content nonempty => ?_
    rw [empty names nonempty]
    nofun
  | @put w _ truthful data ih =>
    have sound : w.Sound Set.univ := ⟨truthful, ih.addressed, Set.subset_univ _⟩
    exact (Blocks.does_put_regular data w sound).1.store ih
  | @remove w _ truthful d ih =>
    have sound : w.Sound Set.univ := ⟨truthful, ih.addressed, Set.subset_univ _⟩
    exact (Blocks.does_remove_regular d w sound).1.store ih

end ObjectStore

end PinnedStore
