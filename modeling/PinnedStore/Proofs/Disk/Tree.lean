import PinnedStore.Proofs.Disk.Making
import PinnedStore.Storage.Directory

/-!
# Disks are trees of names

Nothing stands on a disk but in a directory, and no name on it is empty or has a slash in it:
whatever makes an entry has found the directory for it, and has read its name off a path.  So the
names that lead to a place can be put into a path, with slashes between them, and be read off it
again; and whatever stands below a place is found from there, since the way to it is made of
directories.

Nothing is said about what the files are called apart from that, nor about what is in them.

* `Disk.Tree`: what is so of every disk, since it is so of an empty one and every operation keeps it
  so.
* `Directory.tree_put`, `Directory.tree_delete`: the same for objects.
* `Disk.Rooted.walk`: what stands somewhere is found.
* `Path.names_intercalate`: names are read off the path they were put into.
-/

namespace PinnedStore

namespace Path

/-- A name that can be read off a path. -/
def Proper (name : String) : Prop := name ≠ "" ∧ '/' ∉ name.toList

theorem proper_of_mem_names {path : List Char} {name : String} (h : name ∈ names path) :
    Proper name := by
  constructor
  · obtain ⟨chars, inside, rfl⟩ := List.mem_map.mp h
    have nonempty := (List.mem_filter.mp inside).2
    rintro none
    rw [String.ofList_eq_empty_iff] at none
    simp [none] at nonempty
  · intro slash
    have inside : '/' ∈ (names path).flatMap String.toList := List.mem_flatMap.mpr ⟨name, h, slash⟩
    rw [flatMap_names] at inside
    simpa using (List.mem_filter.mp inside).2

/-- Names that are put into a path can be read off it. -/
theorem names_intercalate {ns : List String} (proper : ∀ name ∈ ns, Proper name) :
    names ("/".intercalate ns).toList = ns := by
  rcases eq_or_ne ns [] with rfl | nonempty
  · decide
  have plain : ∀ chars ∈ ns.map String.toList, '/' ∉ chars := by
    intro chars h
    obtain ⟨name, inside, rfl⟩ := List.mem_map.mp h
    exact (proper name inside).2
  have kept : (ns.map String.toList).filter (!·.isEmpty) = ns.map String.toList := by
    rw [List.filter_eq_self]
    intro chars h
    obtain ⟨name, inside, rfl⟩ := List.mem_map.mp h
    simpa using (proper name inside).1
  rw [names, String.toList_intercalate, show "/".toList = ['/'] from rfl,
    List.splitOn_intercalate '/' plain (by simpa using nonempty), kept, List.map_map]
  have back : String.ofList ∘ String.toList = id := funext fun _ => String.ofList_toList
  rw [back, List.map_id]

end Path

namespace Disk

variable {disk disk' : Disk} {path : List Char}

/-! ## What stands below a place -/

/-- What has something below it is a directory. -/
theorem Rooted.stands (rooted : disk.Rooted) {l rest : Location} (below : rest ≠ [])
    (there : disk.entry? (l ++ rest) ≠ none) : disk.entry? l = some .directory := by
  induction rest using List.reverseRecOn with
  | nil => exact absurd rfl below
  | append_singleton front name ih =>
    rw [← List.append_assoc] at there
    have above := rooted _ _ there
    rcases eq_or_ne front [] with rfl | nonempty
    · rwa [List.append_nil] at above
    · exact ih nonempty (by rw [above]; nofun)

/-- What stands somewhere is found from every place above it, if the names on the way are short and
are no dots. -/
theorem Rooted.walk (rooted : disk.Rooted) {l names : Location}
    (there : disk.entry? (l ++ names) ≠ none)
    (dotless : ∀ name ∈ names, '.' ∉ name.toList)
    (short : ∀ name ∈ names, name.utf8ByteSize ≤ longestName) :
    disk.walk l names = .ok (l ++ names) := by
  rw [← follow_of_dotless l dotless]
  induction names generalizing l with
  | nil => rfl
  | cons name rest ih =>
    have stands := rooted.stands (List.cons_ne_nil name rest) there
    rw [← List.singleton_append, walk_append, follow_append,
      walk_one stands (short name List.mem_cons_self)]
    have plain : '.' ∉ name.toList := dotless name List.mem_cons_self
    have leads : follow l [name] = l ++ [name] := by
      refine follow_of_dotless l fun other h => ?_
      rw [List.mem_singleton.mp h]
      exact plain
    refine ih ?_ (fun n h => dotless n (List.mem_cons_of_mem _ h))
      fun n h => short n (List.mem_cons_of_mem _ h)
    rw [leads, List.append_assoc, List.singleton_append]
    exact there

/-! ## Trees -/

/-- Whatever stands somewhere stands in a directory, and all names could be read off a path. -/
structure Tree (disk : Disk) : Prop where
  rooted : disk.Rooted
  proper : ∀ {l : Location} {e : Entry}, disk.entries[l]? = some e → ∀ name ∈ l, Path.Proper name

namespace Tree

theorem empty (current : Location) : Tree ⟨∅, current⟩ where
  rooted l name there := by
    rw [Disk.entry?, if_neg (by simp)] at there
    exact absurd Std.ExtTreeMap.getElem?_empty there
  proper there := by cases Std.ExtTreeMap.getElem?_empty.symm.trans there

/-- Something is put into a directory. -/
theorem set (tree : disk.Tree) {above : Location} {name : String} {e : Entry}
    (stands : disk.entry? above = some .directory) (proper : Path.Proper name)
    (kept : disk.entry? (above ++ [name]) = some .directory → e = .directory) :
    (disk.set (above ++ [name]) e).Tree where
  rooted := tree.rooted.set rfl stands kept
  proper := by
    intro l e' there
    change (disk.entries.insert (above ++ [name]) e)[l]? = some e' at there
    rw [Std.ExtTreeMap.getElem?_insert] at there
    split at there
    · next same =>
      obtain rfl := Std.compare_eq_iff_eq.mp same
      intro n inside
      rcases List.mem_append.mp inside with early | last
      · rcases eq_or_ne above [] with rfl | below
        · cases early
        · rw [Disk.entry?, if_neg (by simpa using below)] at stands
          exact tree.proper stands n early
      · rw [List.mem_singleton.mp last]
        exact proper
    · exact tree.proper there

/-- A file is taken away. -/
theorem erase (tree : disk.Tree) {l : Location} (below : l ≠ [])
    (free : disk.entry? l ≠ some .directory) : (disk.erase l).Tree where
  rooted := tree.rooted.erase below free
  proper := by
    intro l' e there
    change (disk.entries.erase l)[l']? = some e at there
    rw [Std.ExtTreeMap.getElem?_erase] at there
    split at there
    · cases there
    · exact tree.proper there

end Tree

/-! ## Operations -/

/-- A new entry gets its name from the path. -/
theorem proper_of_locateParent {parent : Location} {name : String}
    (h : disk.locateParent path = .ok (parent, some name)) : Path.Proper name := by
  obtain ⟨_, -, h⟩ := ok_of_bind h
  obtain ⟨reached, -, h⟩ := ok_of_bind h
  obtain ⟨_, -, h⟩ := ok_of_bind h
  suffices last : (Path.names path).getLast? = some name from
    Path.proper_of_mem_names (List.mem_of_getLast? last)
  rcases last : (Path.names path).getLast? with _ | found
  · rw [last] at h
    cases h
  · rw [last] at h
    dsimp only at h
    split at h
    · cases h
    · split at h
      · cases h
      · cases h
        rfl

/-- A file that has been made is there. -/
theorem entry?_createFile {content : Bytes} (h : disk.createFile path content = .ok disk') :
    disk'.entry? (follow (disk'.start path) (Path.names path)) = some (.file content) := by
  obtain ⟨location, leads, below, -, rfl⟩ := createFile_spec h
  change Disk.entry? _ (follow (disk.start path) _) = _
  rw [← leads, entry?_set below, if_pos rfl]

namespace Tree

theorem makeDirectory (tree : disk.Tree) (h : disk.makeDirectory path = .ok disk') :
    disk'.Tree := by
  obtain ⟨⟨parent, last⟩, located, h⟩ := ok_of_bind h
  cases last with
  | none => cases h
  | some name =>
    obtain ⟨-, stands, -⟩ := locateParent_spec located
    dsimp only at h
    split at h
    · cases h
    · cases h
      exact tree.set stands (proper_of_locateParent located) fun _ => rfl

theorem makeDirectoriesFrom (tree : disk.Tree) (fuel : Nat) (path : List Char) :
    (disk.makeDirectoriesFrom fuel path).2.Tree := by
  induction fuel generalizing path with
  | zero => exact tree
  | succ fuel ih =>
    unfold Disk.makeDirectoriesFrom
    split
    · exact tree
    · next parent _ =>
      split
      · next made => exact tree.makeDirectory made
      · have above := ih parent
        split
        · next failed => exact failed ▸ above
        · next made succeeded =>
          rw [succeeded] at above
          split
          · next last lastMade => exact above.makeDirectory lastMade
          · split <;> exact above
      · split <;> exact tree

theorem makeDirectories (tree : disk.Tree) (path : List Char) :
    (disk.makeDirectories path).2.Tree :=
  tree.makeDirectoriesFrom _ path

theorem createFile (tree : disk.Tree) {content : Bytes}
    (h : disk.createFile path content = .ok disk') : disk'.Tree := by
  obtain ⟨⟨parent, last⟩, located, h⟩ := ok_of_bind h
  cases last with
  | none => cases h
  | some name =>
    obtain ⟨-, stands, -⟩ := locateParent_spec located
    dsimp only at h
    split at h
    · cases h
    · dsimp only [pure, Except.pure, bind, Except.bind] at h
      split at h
      · cases h
      · next notDirectory =>
        cases h
        exact tree.set stands (proper_of_locateParent located) fun there =>
          absurd there notDirectory

/-- A file gets another name. -/
theorem rename (tree : disk.Tree) {target : List Char} {content : Bytes}
    (moves : disk.entry? (follow (disk.start path) (Path.names path)) = some (.file content))
    (h : disk.rename path target = .ok disk') : disk'.Tree := by
  obtain ⟨⟨parent, last⟩, located, h⟩ := ok_of_bind h
  obtain ⟨⟨parent', last'⟩, located', h⟩ := ok_of_bind h
  cases last with
  | none => cases h
  | some name =>
    cases last' with
    | none => cases h
    | some name' =>
      obtain ⟨-, stands, -⟩ := locateParent_spec located'
      rw [← locateParent_follow located] at moves
      dsimp only at h
      rw [moves] at h
      dsimp only at h
      split at h
      · cases h
      · split at h
        · cases h
          exact tree
        · split at h
          · cases h
          · next notDirectory =>
            cases h
            have below : parent ++ [name] ≠ [] := by simp
            have erased := tree.erase below (by rw [moves]; nofun)
            refine erased.set ?_ (proper_of_locateParent located') fun there => ?_
            · rw [entry?_erase below, if_neg ?_]
              · exact stands
              · rintro same
                rw [same, moves] at stands
                cases stands
            · rw [entry?_erase below] at there
              split at there
              · cases there
              · exact absurd there notDirectory

theorem remove (tree : disk.Tree) (h : disk.remove path = .ok disk') : disk'.Tree := by
  obtain ⟨location, content, -, below, there, rfl⟩ := remove_spec h
  exact tree.erase below (by rw [there]; nofun)

end Tree

end Disk

namespace Directory

variable {s s' : Directory} {path : String} {content : Bytes} {result : Except Failure Unit}

/-- Writing at any path leaves a tree, whatever comes of it. -/
theorem tree_put (tree : s.disk.Tree) (h : s.put path content = (result, s')) : s'.disk.Tree := by
  rw [put] at h
  split at h
  · cases h
    exact tree
  · next target _ =>
    dsimp only at h
    have prepared := tree.makeDirectories ((Path.parent? target).getD target)
    split at h
    · next failed =>
      rw [failed] at prepared
      cases h
      exact prepared
    · next made succeeded =>
      rw [succeeded] at prepared
      split at h
      · cases h
        exact prepared
      · next staged isStaged =>
        have tree' : staged.Tree := prepared.createFile isStaged
        split at h
        · cases h
          exact tree'
        · next renamed isRenamed =>
          cases h
          exact tree'.rename (Disk.entry?_createFile isStaged) isRenamed

/-- Removing at any path leaves a tree. -/
theorem tree_delete (tree : s.disk.Tree) (h : s.delete path = .ok s') : s'.disk.Tree := by
  obtain ⟨target, -, h⟩ := ok_of_bind h
  rcases removed : s.disk.remove target with e | disk
  · rw [removed] at h
    dsimp only at h
    split at h
    · cases h
      exact tree
    · cases h
  · rw [removed] at h
    cases h
    exact tree.remove removed

end Directory

end PinnedStore
