import PinnedStore.Proofs.Disk.Making
import PinnedStore.Proofs.Storage.Calls

/-!
# What a store lists

A store lists the paths of its objects, and whoever asks for the blocks reads these paths back.
Every block that can be read is listed, since reading a path back undoes writing it.  What is listed
besides depends on the store: a directory may hold files of other kinds, and files at paths that are
read as a block's without being the path at which the block is kept.

The one store that lists nothing, whatever it holds, is a directory whose own path is empty: no
operating system looks at an empty path, while the paths of the objects are not empty.

A path that is listed may be a fault of the store, and then no blocks are listed at all.

* `ObjectStore.Enumerates`, `ObjectStore.mem_list_of_block?`: blocks that can be read are listed.
* `ObjectStore.Unreadable`: some path that is listed can not be read.
* `Directory.mem_list_iff`, `Directory.mem_list`: what a directory lists.
* `Blocks.digestsOf_eq`, `Blocks.list_done`, `Blocks.list_honest`: the blocks that are listed.
* `Blocks.list_of_unreadable`, `Blocks.list_of_readable`: what becomes of the listing.
-/

namespace PinnedStore

/-! ## Files of a directory -/

theorem Disk.mem_filesBelow {disk : Disk} {location names : Location} :
    names ∈ disk.filesBelow location
      ↔ ∃ content, disk.entries[location ++ names]? = some (.file content) := by
  rw [filesBelow, List.mem_filterMap]
  constructor
  · rintro ⟨⟨place, e⟩, inside, found⟩
    rw [Std.ExtTreeMap.mem_toList_iff_getElem?_eq_some] at inside
    dsimp only at found
    split at found
    · next isBelow =>
      rw [Bool.and_eq_true, List.isPrefixOf_iff_prefix] at isBelow
      obtain ⟨⟨rest, rfl⟩, isFile⟩ := isBelow
      rw [List.drop_left] at found
      cases found
      cases e with
      | directory => cases isFile
      | file content => exact ⟨content, inside⟩
    · cases found
  · rintro ⟨content, there⟩
    refine ⟨(location ++ names, .file content), ?_, ?_⟩
    · exact Std.ExtTreeMap.mem_toList_iff_getElem?_eq_some.mpr there
    · simp [Entry.isDirectory]

theorem Disk.nodup_filesBelow (disk : Disk) (location : Location) :
    (disk.filesBelow location).Nodup := by
  rw [filesBelow, List.Nodup, List.pairwise_filterMap]
  refine disk.entries.distinct_keys_toList.imp ?_
  rintro ⟨place, e⟩ ⟨place', e'⟩ distinct names found names' found' rfl
  dsimp only at found found' distinct
  split at found
  · next isBelow =>
    split at found'
    · next isBelow' =>
      rw [Bool.and_eq_true, List.isPrefixOf_iff_prefix] at isBelow isBelow'
      obtain ⟨⟨rest, rfl⟩, -⟩ := isBelow
      obtain ⟨⟨rest', rfl⟩, -⟩ := isBelow'
      rw [List.drop_left, Option.some_inj] at found found'
      rw [found, found'] at distinct
      exact distinct Std.ReflCmp.compare_self
    · cases found'
  · cases found

namespace Path

theorem prefix_join (base : List Char) {below : List Char} (relative : isAbsolute below = false) :
    base <+: join base below := by
  unfold join
  split
  · next empty =>
    have none : base = [] := by simpa [relative] using empty
    rw [none]
    exact List.nil_prefix
  · split
    · exact List.prefix_append _ _
    · exact List.prefix_append _ _

end Path

namespace Directory

variable {s : Directory} {d : Digest} {data : Bytes} {path : String}

/-- What is listed of a directory that is found. -/
theorem mem_list_iff (located : s.disk.locate s.base = .ok s.origin)
    (stands : s.disk.entry? s.origin = some .directory) : path ∈ s.list ↔
      ∃ names ∈ s.disk.filesBelow s.origin, "/".intercalate names = path ∧
        isStaging path.toList = false := by
  rw [list, located]
  dsimp only
  rw [stands]
  simp only [List.mem_filter, List.mem_map, Bool.not_eq_true']
  exact ⟨fun ⟨⟨names, below, same⟩, kept⟩ => ⟨names, below, same, kept⟩,
    fun ⟨names, below, same, kept⟩ => ⟨⟨names, below, same⟩, kept⟩⟩

/-- A directory that lists anything but its own path is found. -/
theorem locate_of_mem_list (nonempty : path ≠ "") (h : path ∈ s.list) :
    s.disk.locate s.base = .ok s.origin ∧ s.disk.entry? s.origin = some .directory := by
  rw [list] at h
  split at h
  · cases h
  · next location located =>
    obtain rfl : location = s.origin := Disk.locate_follow located
    refine ⟨located, ?_⟩
    split at h
    · cases h
    · next stands => exact stands
    · split at h
      · cases h
      · exact absurd (List.mem_singleton.mp h) nonempty

/-- What a directory lists: files below the base that are not being written.  The empty path stands
for the base itself. -/
theorem mem_list (h : path ∈ s.list) : path = "" ∨ ∃ names content, names ≠ [] ∧
    s.disk.entry? (s.origin ++ names) = some (.file content) ∧ path = "/".intercalate names ∧
      isStaging path.toList = false := by
  rcases eq_or_ne path "" with rfl | nonempty
  · exact Or.inl rfl
  obtain ⟨located, stands⟩ := locate_of_mem_list nonempty h
  obtain ⟨names, below, rfl, notStaging⟩ := (mem_list_iff located stands).mp h
  obtain ⟨content, there⟩ := Disk.mem_filesBelow.mp below
  have somewhere : names ≠ [] := by
    rintro rfl
    exact nonempty rfl
  refine Or.inr ⟨names, content, somewhere, ?_, rfl, notStaging⟩
  rw [Disk.entry?, if_neg (by simp [somewhere])]
  exact there

/-- A base below which a path is found is a directory that can be found, unless its own path is
empty. -/
theorem locate_base (nonempty : s.base ≠ []) {below : List Char} {l : Location}
    (relative : Path.isAbsolute below = false) (named : Path.names below ≠ [])
    (located : s.disk.locate (Path.join s.base below) = .ok l) :
    s.disk.locate s.base = .ok s.origin ∧ s.disk.entry? s.origin = some .directory := by
  obtain ⟨_, fine, walked⟩ := ok_of_bind located
  -- The path of the base is the front of the other's, so nothing is wrong with it unless it is
  -- empty.
  have check : Disk.check s.base = .ok () :=
    Disk.check_of_prefix fine (Path.prefix_join s.base relative) nonempty
  obtain ⟨front, whole, isFront, names⟩ := Path.join_eq s.base relative
  have start : s.disk.start (Path.join s.base below) = s.disk.start s.base := by
    rw [Disk.start, Disk.start, Path.isAbsolute_join s.base relative]
  rw [start, whole, Path.names_isFront_append isFront, names, List.append_assoc,
    Disk.walk_append] at walked
  obtain ⟨between, early, late⟩ := ok_of_bind walked
  have leads : between = s.origin := Disk.walk_follow early
  subst leads
  have stands : s.disk.requireDirectory s.origin = .ok () := by
    obtain ⟨name, rest, parted⟩ := List.exists_cons_of_ne_nil named
    rw [parted] at late
    obtain ⟨_, stands, -⟩ := ok_of_bind late
    exact stands
  refine ⟨?_, Disk.requireDirectory_eq_ok.mp stands⟩
  rw [Disk.locate, check]
  simp only [bind, Except.bind]
  rw [Disk.walk_append, early]
  simp only [bind, Except.bind]
  split
  · rw [Disk.walk, stands]
    rfl
  · rfl

/-- A file at the place of a block is below the base. -/
theorem mem_filesBelow_of_entry? (there : s.disk.entry? (s.place d) = some (.file data)) :
    BlockPath.directoryNames d ∈ s.disk.filesBelow s.origin := by
  rw [Disk.entry?, if_neg (by simpa using s.place_ne_nil d)] at there
  exact Disk.mem_filesBelow.mpr ⟨data, there⟩

/-- A block that can be found is listed, unless the path of the base is empty. -/
theorem mem_list_of_locate (nonempty : s.base ≠ [])
    (located : s.disk.locate (s.target d) = .ok (s.place d))
    (there : s.disk.entry? (s.place d) = some (.file data)) :
    BlockPath.write features d ∈ s.list := by
  obtain ⟨found, stands⟩ := locate_base nonempty (BlockPath.isAbsolute_write d)
    (BlockPath.directoryNames_ne_nil d) located
  exact (mem_list_iff found stands).mpr ⟨_, mem_filesBelow_of_entry? there,
    BlockPath.intercalate_directoryNames d, BlockPath.isStaging_write d⟩

/-- Every path is listed once, if the names on the way to a file can be read off its path. -/
theorem nodup_list (readable : ∀ names ∈ s.disk.filesBelow s.origin,
    Path.names ("/".intercalate names).toList = names) : s.list.Nodup := by
  rw [list]
  split
  · exact List.nodup_nil
  · next location located =>
    obtain rfl : location = s.origin := Disk.locate_follow located
    split
    · exact List.nodup_nil
    · refine List.Nodup.filter _ (List.Nodup.map_on ?_ (s.disk.nodup_filesBelow s.origin))
      intro names below names' below' same
      rw [← readable names below, same, readable names' below']
    · split
      · exact List.nodup_nil
      · exact List.nodup_singleton _

/-- A directory whose own path is empty, on a disk with nothing on it. -/
def nameless : Directory := ⟨[], .empty⟩

end Directory

/-! ## Blocks of a store -/

namespace ObjectStore

theorem nodup_keys (objects : Std.ExtTreeMap String Bytes) : objects.keys.Nodup := by
  refine objects.distinct_keys.imp ?_
  rintro path path' distinct rfl
  exact distinct Std.ReflCmp.compare_self

/-- Some path that is listed is a fault of the store. -/
def Unreadable (s : ObjectStore) : Prop :=
  ∃ path ∈ s.list, BlockPath.read s.features path = .error .invalidName

/-- The path of the store, if it has one, is not empty. -/
def Enumerates (s : ObjectStore) : Prop := s.base? ≠ some []

/-- A store that lists anything can list what it holds. -/
theorem enumerates_of_mem_list {s : ObjectStore} {path : String} (h : path ∈ s.list) :
    s.Enumerates := by
  intro base
  cases s with
  | memory objects => cases base
  | directory s =>
    have empty : s.base = [] := Option.some.inj base
    have missing : s.disk.locate s.base = .error .notFound := by
      rw [empty]
      rfl
    change path ∈ s.list at h
    rw [Directory.list, missing] at h
    cases h

/-- A store whose own path is empty lists nothing. -/
theorem list_of_not_enumerates {s : ObjectStore} (unlisted : ¬ s.Enumerates) : s.list = [] :=
  List.eq_nil_iff_forall_not_mem.mpr fun _ h => unlisted (enumerates_of_mem_list h)

/-- A block that can be read is listed. -/
theorem mem_list_of_block? {s : ObjectStore} {d : Digest} {data : Bytes} (enumerates : s.Enumerates)
    (h : s.block? d = some data) : BlockPath.write s.features d ∈ s.list := by
  obtain ⟨isOpen, held⟩ := block?_eq_some.mp h
  cases s with
  | memory objects =>
    change _ ∈ objects.keys
    rw [Std.ExtTreeMap.mem_keys, Std.ExtTreeMap.mem_iff_isSome_getElem?]
    exact Option.isSome_of_eq_some held
  | directory s =>
    have nonempty : s.base ≠ [] := fun empty => enumerates (congrArg some empty)
    exact Directory.mem_list_of_locate nonempty isOpen (held_directory_eq_some.mp held)

end ObjectStore

open Program

namespace Storage

variable {known : Set Bytes} {w : World}

theorem list_eq (truthful : w.conduct.lies = []) :
    list w = (call .list >>= fun _ => inspect fun w => w.store.list) w := by
  refine call_bind_congr ((tells_bind truthful .listing _).trans ?_)
  exact (bind_of_done rfl).trans (tells_bind truthful .separators _)

theorem does_list : Does known World.Untouched list := by
  intro w sound
  rw [list_eq sound.truthful]
  exact (onlyReads_call _).does.bind (fun _ => .inspect _) w sound

end Storage

/-- The digest of the block that a path is read as, if there is one. -/
def BlockPath.digest? (features : Features) (path : String) : Option Digest :=
  match read features path with
  | .ok found => found
  | .error _ => none

theorem BlockPath.digest?_eq_some {features : Features} {path : String} {d : Digest} :
    digest? features path = some d ↔ read features path = .ok (some d) := by
  rw [digest?]
  cases read features path <;> simp

namespace Blocks

variable {known : Set Bytes} {w w' : World} {ds : List Digest} {d : Digest}

theorem does_list : Does known World.Untouched list :=
  Storage.does_list.bind fun _ => (Does.inspect _).bind fun _ => .ofExcept _

/-- The digests that are read off some paths are those of the single paths, in order. -/
theorem digestsOf_eq {features : Features} {paths : List String}
    (h : digestsOf features paths = .ok ds) :
    ds = paths.filterMap (BlockPath.digest? features) := by
  induction paths generalizing ds with
  | nil =>
    cases h
    rfl
  | cons path rest ih =>
    rw [digestsOf] at h
    rw [List.filterMap_cons, BlockPath.digest?]
    rcases isRead : BlockPath.read features path with e | (_ | d)
    · rw [isRead] at h
      cases h
    · rw [isRead] at h
      exact ih h
    · rw [isRead] at h
      dsimp only at h
      rcases others : digestsOf features rest with f | ds'
      · rw [others] at h
        cases h
      · rw [others] at h
        cases h
        exact congrArg (d :: ·) (ih others)

theorem mem_digestsOf {features : Features} {paths : List String}
    (h : digestsOf features paths = .ok ds) :
    d ∈ ds ↔ ∃ path ∈ paths, BlockPath.read features path = .ok (some d) := by
  simp only [digestsOf_eq h, List.mem_filterMap, BlockPath.digest?_eq_some]

theorem list_of_proceeds (truthful : w.conduct.lies = [])
    (proceeds : w.conduct.verdict w.clock .list = .proceed) :
    list w = ofExcept (digestsOf w.store.features w.store.list) w.ticked := by
  have listed : Storage.list w = (.done w.store.list, w.ticked) := by
    rw [Storage.list_eq truthful, bind_of_done (Storage.call_proceeds proceeds), inspect_apply,
      World.store_ticked]
  rw [list, bind_of_done listed]
  rfl

theorem list_honest (honest : w.conduct = .honest) :
    list w = ofExcept (digestsOf w.store.features w.store.list) w.ticked :=
  list_of_proceeds (World.truthful_of_honest honest) (World.proceeds_of_honest honest _)

/-- The blocks that are listed are those that are read off the paths. -/
theorem digestsOf_of_list (truthful : w.conduct.lies = []) (h : list w = (.done ds, w')) :
    World.Untouched w w' ∧ digestsOf w.store.features w.store.list = .ok ds := by
  obtain ⟨paths, between, listed, h⟩ := done_of_bind h
  rw [Storage.list_eq truthful] at listed
  obtain ⟨_, ticked, called, inspected⟩ := done_of_bind listed
  rw [Storage.call_done called] at inspected
  cases inspected
  obtain ⟨features, _, inspected, h⟩ := done_of_bind h
  cases inspected
  change ofExcept (digestsOf w.store.features w.store.list) w.ticked = _ at h
  rcases read : digestsOf w.store.features w.store.list with f | found
  · rw [read] at h
    cases h
  · rw [read] at h
    cases h
    exact ⟨w.untouched_ticked, rfl⟩

/-- The blocks that are listed. -/
theorem list_done (truthful : w.conduct.lies = []) (h : list w = (.done ds, w')) :
    World.Untouched w w' ∧
      ∀ d, d ∈ ds ↔ ∃ path ∈ w.store.list, BlockPath.read w.store.features path = .ok (some d) := by
  obtain ⟨moved, read⟩ := digestsOf_of_list truthful h
  exact ⟨moved, fun d => mem_digestsOf read⟩

/-- The digests of a list of paths can be read off if and only if the digest of each path can. -/
theorem exists_digestsOf_iff {features : Features} {paths : List String} :
    (∃ ds, digestsOf features paths = .ok ds)
      ↔ ∀ path ∈ paths, ∃ found, BlockPath.read features path = .ok found := by
  induction paths with
  | nil => simp [digestsOf]
  | cons path rest ih =>
    rw [List.forall_mem_cons, ← ih, digestsOf]
    rcases BlockPath.read features path with ⟨⟩ | (_ | d)
    · simp
    · simp
    · cases digestsOf features rest <;> simp [Except.map]

/-- One path that can not be read is enough. -/
theorem digestsOf_of_error {features : Features} {paths : List String} {path : String}
    (listed : path ∈ paths) (fault : BlockPath.read features path = .error .invalidName) :
    digestsOf features paths = .error (.io .invalidName) := by
  induction paths with
  | nil => cases listed
  | cons first rest ih =>
    rw [digestsOf]
    rcases List.mem_cons.mp listed with rfl | later
    · rw [fault]
    · rcases BlockPath.read features first with ⟨⟩ | (_ | d)
      · rfl
      · exact ih later
      · dsimp only
        rw [ih later]
        rfl

/-- The digests of the paths of a store can be read off, if none of the paths is a fault. -/
theorem exists_digestsOf {s : ObjectStore} (readable : ¬ s.Unreadable) :
    ∃ ds, digestsOf s.features s.list = .ok ds := by
  refine exists_digestsOf_iff.mpr fun path listed => ?_
  rcases isRead : BlockPath.read s.features path with ⟨⟩ | found
  · exact absurd ⟨path, listed, isRead⟩ readable
  · exact ⟨found, rfl⟩

theorem list_of_unreadable (truthful : w.conduct.lies = [])
    (proceeds : w.conduct.verdict w.clock .list = .proceed) (unreadable : w.store.Unreadable) :
    list w = (.failed (.io .invalidName), w.ticked) := by
  obtain ⟨path, listed, fault⟩ := unreadable
  rw [list_of_proceeds truthful proceeds, digestsOf_of_error listed fault]
  rfl

/-- Where all paths can be read, the blocks are listed that are read off them. -/
theorem list_of_readable (truthful : w.conduct.lies = [])
    (proceeds : w.conduct.verdict w.clock .list = .proceed) (readable : ¬ w.store.Unreadable) :
    ∃ ds, list w = (.done ds, w.ticked) ∧ digestsOf w.store.features w.store.list = .ok ds := by
  obtain ⟨ds, read⟩ := exists_digestsOf readable
  refine ⟨ds, ?_, read⟩
  rw [list_of_proceeds truthful proceeds, read]
  rfl

/-- A block that can be read is among those that are listed. -/
theorem mem_of_list_done (truthful : w.conduct.lies = []) (enumerates : w.store.Enumerates)
    (h : list w = (.done ds, w')) {data : Bytes} (there : w.store.block? d = some data) : d ∈ ds :=
  ((list_done truthful h).2 d).mpr
    ⟨_, ObjectStore.mem_list_of_block? enumerates there, BlockPath.read_write _ _⟩

end Blocks

end PinnedStore
