import PinnedStore.Proofs.Disk.Tree
import PinnedStore.Proofs.Storage.Listing
import PinnedStore.Proofs.Storage.Usable

/-!
# Files of any kind

Below the base of a directory there may be any files, and what is listed depends on their paths
alone.  A removal of a block that goes through takes the path of this block off the list and leaves
the rest of the list as it was.  Either there was a file at the place of the block, whoever has put
it there, and it is gone; or there was none, and then the path of the block was not listed, as the
names that lead to a file can be read off its path.  A file at the place of the block is never
passed over as missing: what stands on a tree is found.

A path that is read as the block without being its path stays on the list.

* `Directory.locate_target`: what stands at the place of a block is found.
* `Directory.mem_list_delete`: what is listed after a removal.
* `ObjectStore.Tree`: stores with a tree below them, and `ObjectStore.Delists` what removals do to
  the list of either kind of store.
-/

namespace PinnedStore

open Disk

/-- A path that is not even looked at is not reported as missing, unless it is empty. -/
theorem Disk.isNotFound_of_check {path : List Char} {e : IoError} (nonempty : path ≠ [])
    (h : check path = .error e) : e.isNotFound = false := by
  unfold check at h
  split at h
  · cases h
    rfl
  · rw [if_neg (by simpa using nonempty)] at h
    split at h
    · cases h
      rfl
    · cases h

namespace Directory

variable {s s' : Directory} {d : Digest} {path : String} {data : Bytes}

/-- Where the base is found, so is whatever stands at the place of a block. -/
theorem locate_target (rooted : s.disk.Rooted) (located : s.disk.locate s.base = .ok s.origin)
    (fine : check (s.target d) = .ok ()) (there : s.disk.entry? (s.place d) ≠ none) :
    s.disk.locate (s.target d) = .ok (s.place d) := by
  obtain ⟨_, -, walked⟩ := ok_of_bind located
  rw [Disk.walk_append] at walked
  obtain ⟨between, early, -⟩ := ok_of_bind walked
  obtain rfl : between = s.origin := walk_follow early
  have late : s.disk.walk s.origin (BlockPath.directoryNames d) = .ok (s.place d) :=
    rooted.walk (l := s.origin) there (fun _ => BlockPath.dotless)
      fun _ => BlockPath.short_of_mem_directoryNames
  rw [locate, fine, endsInSlash_target, if_neg Bool.false_ne_true, List.append_nil, start_target,
    names_target]
  simp only [bind, Except.bind]
  rw [Disk.walk_append, early]
  simp only [bind, Except.bind]
  exact late

/-- A removal that succeeds takes away the file at the place of the block. -/
theorem delete_of_file (rooted : s.disk.Rooted) (located : s.disk.locate s.base = .ok s.origin)
    (there : s.disk.entry? (s.place d) = some (.file data))
    (h : s.delete (BlockPath.write features d) = .ok s') : s'.disk.entry? (s.place d) = none := by
  rcases fine : check (s.target d) with e | ⟨⟩
  · have nonempty : s.target d ≠ [] := by
      intro none
      have named := names_target s d
      rw [none, Path.names_nil] at named
      simpa using congrArg List.length named
    have refused : s.disk.remove (s.target d) = .error e := by
      rw [remove, locateParent, fine]
      rfl
    rw [delete, resolve_write] at h
    -- The removal reports this error, as it is not that something is missing.
    simp only [bind, Except.bind, refused, isNotFound_of_check nonempty fine] at h
    cases h
  · have found := locate_target rooted located fine (by rw [there]; exact Option.some_ne_none _)
    obtain ⟨t, removed, gone⟩ := delete_of_locate found there
    cases h.symm.trans removed
    exact gone

/-! ## What is listed -/

/-- The names on the way to a file can be read off the path it is listed at. -/
theorem names_of_mem_filesBelow (tree : s.disk.Tree) {names : List String}
    (below : names ∈ s.disk.filesBelow s.origin) :
    Path.names ("/".intercalate names).toList = names := by
  obtain ⟨content, there⟩ := mem_filesBelow.mp below
  exact Path.names_intercalate fun name inside =>
    tree.proper there name (List.mem_append_right _ inside)

/-- The path of a block is listed only for the file at its place. -/
theorem eq_directoryNames (tree : s.disk.Tree) {names : List String}
    (below : names ∈ s.disk.filesBelow s.origin)
    (same : "/".intercalate names = BlockPath.write features d) :
    names = BlockPath.directoryNames d := by
  rw [← names_of_mem_filesBelow tree below, same]
  rfl

theorem list_of_error {e : IoError} (failed : s.disk.locate s.base = .error e) : s.list = [] := by
  rw [list, failed]

theorem write_ne_empty (d : Digest) : BlockPath.write features d ≠ "" := by
  intro empty
  have chars := congrArg String.toList empty
  rw [BlockPath.toList_write] at chars
  cases chars

/-- The files below the base after the one at the place of a block has been taken away. -/
theorem mem_filesBelow_erase {names : List String} :
    names ∈ (s.disk.erase (s.place d)).filesBelow s.origin
      ↔ names ∈ s.disk.filesBelow s.origin ∧ names ≠ BlockPath.directoryNames d := by
  rw [mem_filesBelow, mem_filesBelow]
  have taken : ∀ content,
      (s.disk.erase (s.place d)).entries[s.origin ++ names]? = some (.file content)
      ↔ s.disk.entries[s.origin ++ names]? = some (.file content) ∧
        names ≠ BlockPath.directoryNames d := by
    intro content
    change (s.disk.entries.erase (s.place d))[s.origin ++ names]? = _ ↔ _
    rw [Std.ExtTreeMap.getElem?_erase]
    split
    · next same =>
      have named : names = BlockPath.directoryNames d :=
        (List.append_cancel_left (Std.compare_eq_iff_eq.mp same)).symm
      simp [named]
    · next other =>
      have unnamed : names ≠ BlockPath.directoryNames d := fun named =>
        other (Std.compare_eq_iff_eq.mpr (congrArg (s.origin ++ ·) named.symm))
      simp [unnamed]
  simp only [taken, exists_and_right]

/-- A removal of a block whose path is listed takes something away, if it succeeds. -/
theorem delete_ne_self_of_mem_list (tree : s.disk.Tree)
    (h : s.delete (BlockPath.write features d) = .ok s')
    (listed : BlockPath.write features d ∈ s.list) : s ≠ s' := by
  obtain ⟨located, stands⟩ := locate_of_mem_list (write_ne_empty d) listed
  obtain ⟨names, below, same, -⟩ := (mem_list_iff located stands).mp listed
  have named := eq_directoryNames tree below same
  obtain ⟨data, there⟩ := mem_filesBelow.mp below
  have stood : s.disk.entry? (s.place d) = some (.file data) := by
    rw [Disk.entry?, if_neg (by simpa using s.place_ne_nil d), place, ← named]
    exact there
  rintro rfl
  cases stood.symm.trans (delete_of_file tree.rooted located stood h)

/-- After a removal that succeeds the path of the block is not listed, and everything else is listed
as before. -/
theorem mem_list_delete (tree : s.disk.Tree) (h : s.delete (BlockPath.write features d) = .ok s') :
    path ∈ s'.list ↔ path ∈ s.list ∧ path ≠ BlockPath.write features d := by
  rcases delete_cases h with rfl | ⟨data, there, erased⟩
  · -- Nothing has been removed, so there was no file at the place of the block.
    refine ⟨fun listed => ⟨listed, ?_⟩, And.left⟩
    rintro rfl
    exact delete_ne_self_of_mem_list tree h listed rfl
  · obtain ⟨later, earlier, -⟩ := delete_spec h
    rcases located : s.disk.locate s.base with e | l
    · rcases located' : s'.disk.locate s'.base with e' | l
      · rw [list_of_error located, list_of_error located']
        simp
      · rw [later.base] at located'
        cases located.symm.trans (earlier.keeps.locate located')
    obtain rfl : l = s.origin := locate_follow located
    -- The file that has been removed stood below the base, which is a directory.
    have stands : s.disk.entry? s.origin = some .directory :=
      tree.rooted.stands (BlockPath.directoryNames_ne_nil d)
        (by rw [← place, there]; exact Option.some_ne_none _)
    have located' : s'.disk.locate s'.base = .ok s'.origin := by
      rw [later.base, later.origin]
      exact later.keeps.locate located
    have stands' : s'.disk.entry? s'.origin = some .directory := by
      rw [later.origin]
      exact later.keeps.entry? stands
    have files : ∀ names, names ∈ s'.disk.filesBelow s'.origin
        ↔ names ∈ s.disk.filesBelow s.origin ∧ names ≠ BlockPath.directoryNames d := by
      intro names
      rw [later.origin, erased]
      exact mem_filesBelow_erase
    rw [mem_list_iff located stands, mem_list_iff located' stands']
    constructor
    · rintro ⟨names, below, same, kept⟩
      obtain ⟨below, other⟩ := (files names).mp below
      refine ⟨⟨names, below, same, kept⟩, fun isBlock => other ?_⟩
      exact eq_directoryNames tree below (same.trans isBlock)
    · rintro ⟨⟨names, below, same, kept⟩, other⟩
      refine ⟨names, (files names).mpr ⟨below, fun named => other ?_⟩, same, kept⟩
      rw [← same, named]
      exact BlockPath.intercalate_directoryNames d

end Directory

/-! ## Both kinds of store -/

namespace ObjectStore

variable {s s' : ObjectStore} {d : Digest} {path : String}

/-- The disk of a directory is a tree; objects in memory may have any paths. -/
inductive Tree : ObjectStore → Prop
  | memory (objects : Std.ExtTreeMap String Bytes) : Tree (.memory objects)
  | directory {s : Directory} (tree : s.disk.Tree) : Tree (.directory s)

/-- Just the paths of these blocks are not listed any more. -/
structure Delists (gone : Digest → Prop) (s s' : ObjectStore) : Prop where
  tree : s'.Tree
  features : s'.features = s.features
  list : ∀ path, path ∈ s'.list ↔ path ∈ s.list ∧ ∀ d, gone d → path ≠ BlockPath.write s.features d

theorem Tree.put (tree : s.Tree) (path : String) (content : Bytes) :
    (s.put path content).2.Tree := by
  cases tree with
  | memory objects => exact .memory _
  | @directory s tree =>
    rcases step : s.put path content with ⟨result, t⟩
    rw [put_directory step]
    exact .directory (Directory.tree_put tree step)

theorem Tree.delete (tree : s.Tree) (h : s.delete path = .ok s') : s'.Tree := by
  cases tree with
  | memory objects =>
    cases h
    exact .memory _
  | directory tree =>
    obtain ⟨t, removed, rfl⟩ := delete_directory h
    exact .directory (Directory.tree_delete tree removed)

/-- Every object is listed once. -/
theorem Tree.nodup_list (tree : s.Tree) : s.list.Nodup := by
  cases tree with
  | memory objects => exact nodup_keys objects
  | directory tree =>
    exact Directory.nodup_list fun _ below => Directory.names_of_mem_filesBelow tree below

/-- After a removal that has gone through, just the path of the block is not listed any more. -/
theorem delists_delete (tree : s.Tree) (h : s.delete (BlockPath.write s.features d) = .ok s') :
    Delists (· = d) s s' := by
  refine ⟨tree.delete h, features_delete h, fun path => ?_⟩
  rw [forall_eq]
  cases tree with
  | memory objects =>
    cases h
    change path ∈ (objects.erase _).keys ↔ path ∈ objects.keys ∧ _
    rw [Std.ExtTreeMap.mem_keys, Std.ExtTreeMap.mem_keys, Std.ExtTreeMap.mem_erase, and_comm]
    exact and_congr_right fun _ => Std.compare_eq_iff_eq.not.trans ne_comm
  | directory tree =>
    obtain ⟨t, removed, rfl⟩ := delete_directory h
    exact Directory.mem_list_delete tree removed

end ObjectStore

end PinnedStore
