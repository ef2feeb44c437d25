import PinnedStore.Proofs.Disk.Making
import PinnedStore.Proofs.Storage.Written

/-!
# Stores in which nothing is in the way

A store in memory carries out every call.  A directory does so as long as nothing is in the way: the
operating system looks at the paths of blocks, the base can be made or is there already, and neither
a file stands on the way to a block nor a directory where the block, or the file next to it, is
going to stand.  Writing and removing blocks puts nothing in the way, so a directory that begins
like this goes on like this.

* `Directory.Suitable`: what is asked of the path of the base.
* `Directory.Usable`, `ObjectStore.Usable`: nothing is in the way of any block.
* `ObjectStore.Usable.put`, `ObjectStore.Usable.delete`: the calls go through, and nothing is in the
  way afterwards.
* `ObjectStore.Vacant`: stores that hold nothing yet; `Vacant.usable`, `Vacant.regular`.
* `ObjectStore.answers_of_block?`, `ObjectStore.Usable.misses`: what is answered about a block.
-/

namespace PinnedStore

open Disk

/-! ## The paths of blocks are short -/

theorem utf8ByteSize_ofList_of_ascii {chars : List Char} (ascii : ∀ c ∈ chars, c.utf8Size = 1) :
    (String.ofList chars).utf8ByteSize = chars.length := by
  induction chars with
  | nil => rfl
  | cons c rest ih =>
    have single : (String.ofList [c]).utf8ByteSize = 1 := by
      rw [← String.singleton_eq_ofList, String.utf8ByteSize_singleton]
      exact ascii c List.mem_cons_self
    rw [← List.singleton_append, String.ofList_append, String.utf8ByteSize_append, single,
      ih fun c h => ascii c (List.mem_cons_of_mem _ h), List.length_append, List.length_singleton]

namespace BlockPath

variable {d : Digest}

/-- The characters that paths of blocks are made of take one byte and are no NUL. -/
theorem small_of_mem_symbols {c : Char} (h : c ∈ symbols Directory.features d) :
    c.utf8Size = 1 ∧ c ≠ '\x00' := by
  have small : (Packed.crockford32.symbols.all fun c => c.utf8Size = 1 ∧ c ≠ '\x00') = true := by
    decide
  have inside : c ∈ Packed.crockford32.symbols :=
    Packed.mem_symbols_of_mem_encode Packed.proper_crockford32 h
  exact of_decide_eq_true (List.all_eq_true.mp small c inside)

theorem mem_stagedPath {c : Char} (h : c ∈ stagedPath d) :
    c ∈ "block3/.tmp".toList ∨ c ∈ symbols Directory.features d := by
  -- Said of `all`, since not every way of deciding a bounded statement looks at the list alone.
  have inText : ∀ chars : List Char, (chars.all fun c => c ∈ "block3/.tmp".toList) = true →
      ∀ c ∈ chars, c ∈ "block3/.tmp".toList :=
    fun chars all c inside => of_decide_eq_true (List.all_eq_true.mp all c inside)
  have part : ∀ n m, ∀ c ∈ ((symbols Directory.features d).drop n).take m,
      c ∈ symbols Directory.features d :=
    fun n m c inside => List.mem_of_mem_drop (List.mem_of_mem_take inside)
  rw [stagedPath, stem, fileName] at h
  simp only [List.mem_append, List.mem_cons, List.not_mem_nil, or_false] at h
  rcases h with (first | first | rfl | second | rfl | third | rfl) | rest | rfl | last
  · exact Or.inl (inText top (by decide) c first)
  · exact Or.inr (List.mem_of_mem_take first)
  · exact Or.inl (by decide)
  · exact Or.inr (part 2 2 c second)
  · exact Or.inl (by decide)
  · exact Or.inr (part 4 2 c third)
  · exact Or.inl (by decide)
  · exact Or.inr (List.mem_of_mem_drop rest)
  · exact Or.inl (by decide)
  · exact Or.inl (inText Directory.staging (by decide) c last)

theorem small_of_mem_stagedPath {c : Char} (h : c ∈ stagedPath d) :
    c.utf8Size = 1 ∧ c ≠ '\x00' := by
  rcases mem_stagedPath h with inText | inSymbols
  · have small : ("block3/.tmp".toList.all fun c => c.utf8Size = 1 ∧ c ≠ '\x00') = true := by decide
    exact of_decide_eq_true (List.all_eq_true.mp small c inText)
  · exact small_of_mem_symbols inSymbols

theorem length_stagedPath (d : Digest) : (stagedPath d).length = 66 := by
  have inTop : top.length = 7 := rfl
  have inStaging : Directory.staging.length = 3 := rfl
  simp [stagedPath, stem, fileName, inTop, inStaging, length_symbols]

/-- The path of a file that is being written takes as many bytes as it has characters. -/
theorem utf8ByteSize_stagedPath (d : Digest) :
    (String.ofList (stagedPath d)).utf8ByteSize = 66 := by
  rw [utf8ByteSize_ofList_of_ascii fun c h => (small_of_mem_stagedPath h).1, length_stagedPath]

/-- A name of no more than these characters is short. -/
theorem short_of_mem_stagedPath {name : String} (chars : ∀ c ∈ name.toList, c ∈ stagedPath d)
    (length : name.toList.length ≤ (stagedPath d).length) : name.utf8ByteSize ≤ longestName := by
  have size := utf8ByteSize_ofList_of_ascii fun c h => (small_of_mem_stagedPath (chars c h)).1
  rw [String.ofList_toList] at size
  rw [length_stagedPath] at length
  rw [size]
  exact length.trans (by decide)

/-- The names on the way to a file that is being written are short. -/
theorem short_of_mem_names_stagedPath {name : String} (h : name ∈ Path.names (stagedPath d)) :
    name.utf8ByteSize ≤ longestName :=
  short_of_mem_stagedPath (fun _ inside => Path.mem_of_mem_names h inside)
    (Path.length_le_of_mem_names h)

/-- The names on the way to a block are short. -/
theorem short_of_mem_directoryNames {name : String} (h : name ∈ directoryNames d) :
    name.utf8ByteSize ≤ longestName := by
  have early : (write Directory.features d).toList <+: stagedPath d := by
    rw [write_eq, stagedPath, ← List.append_assoc]
    exact List.prefix_append _ _
  exact short_of_mem_stagedPath (fun c inside => early.subset (Path.mem_of_mem_names h inside))
    ((Path.length_le_of_mem_names h).trans early.length_le)

end BlockPath

namespace Directory

variable {s s' : Directory} {d : Digest} {data : Bytes}

/-! ## Bases -/

/-- What is asked of the path of a directory in which blocks are to be kept. -/
structure Suitable (s : Directory) : Prop where
  /-- It starts at a directory. -/
  start : s.disk.entry? (s.disk.start s.base) = some .directory
  noNul : '\x00' ∉ s.base
  /-- It leaves room for the path of a file next to a block. -/
  short : (String.ofList s.base).utf8ByteSize + 67 ≤ longestPath
  shortNames : ∀ name ∈ Path.names s.base, name.utf8ByteSize ≤ longestName
  /-- It does not pass by the place of a block. -/
  clear : s.Clear
  /-- It does not pass by the file next to a block. -/
  apart : ∀ d, ¬ OnTheWay (s.disk.start s.base) (Path.names s.base) (s.beside d)

theorem target_eq_append (s : Directory) (d : Digest) : ∃ gap, (gap = [] ∨ gap = ['/']) ∧
    s.target d = s.base ++ gap ++ BlockPath.stem d ++ BlockPath.fileName d ∧
      Path.withExtension (s.target d) staging = s.base ++ gap ++ BlockPath.stagedPath d := by
  obtain ⟨gap, short, joined⟩ := Path.join_eq_append s.base (BlockPath.isAbsolute_write d)
  rw [BlockPath.write_eq, ← List.append_assoc] at joined
  refine ⟨gap, short, ?_, ?_⟩
  · rw [target, BlockPath.write_eq]
    exact joined
  · rw [target, BlockPath.write_eq, joined, Path.withExtension_of_plain (isFront_target _ d)
      (BlockPath.fileName_ne_nil d) (BlockPath.slash_notMem_fileName d)
      (BlockPath.dot_notMem_fileName d), List.append_assoc]
    rfl

theorem names_withExtension_target (s : Directory) (d : Digest) :
    Path.names (Path.withExtension (s.target d) staging)
      = s.way d ++ [String.ofList (BlockPath.fileName d ++ '.' :: staging)] := by
  obtain ⟨front, shape, -, named⟩ := s.withExtension_target d
  rw [shape, Path.names_isFront_append (isFront_target front d), named,
    Path.names_of_plain (by simp) (BlockPath.slash_notMem_stagedName d)]
  rfl

theorem names_target_eq_way (s : Directory) (d : Digest) :
    Path.names (s.target d) = s.way d ++ [String.ofList (BlockPath.fileName d)] := by
  rw [names_target, BlockPath.directoryNames_eq, way, List.append_assoc]

/-- A name longer than two characters is not one of dots. -/
theorem plain_of_long {chars : List Char} (long : 2 < chars.length) :
    String.ofList chars ≠ "." ∧ String.ofList chars ≠ ".." := by
  constructor
  all_goals
    intro same
    have chars := congrArg (fun n => n.toList.length) same
    simp at chars
    omega

namespace Suitable

theorem later (suitable : s.Suitable) (later : Later s s') : s'.Suitable where
  start := by
    rw [later.base, later.keeps.start]
    exact later.keeps.entry? suitable.start
  noNul := later.base ▸ suitable.noNul
  short := later.base ▸ suitable.short
  shortNames := later.base ▸ suitable.shortNames
  clear := later.clear suitable.clear
  apart := by
    intro d
    rw [later.base, later.keeps.start, later.beside]
    exact suitable.apart d

theorem short_of_mem_way (suitable : s.Suitable) {name : String} (h : name ∈ s.way d) :
    name.utf8ByteSize ≤ longestName := by
  rcases List.mem_append.mp h with above | below
  · exact suitable.shortNames name above
  · refine BlockPath.short_of_mem_names_stagedPath (d := d) ?_
    rw [BlockPath.names_stagedPath]
    exact List.mem_append_left _ below

/-- The file next to a block can be named. -/
theorem names_beside (suitable : s.Suitable) (d : Digest) :
    Names (Path.withExtension (s.target d) staging) (s.way d)
      (String.ofList (BlockPath.fileName d ++ '.' :: staging)) where
  fine := by
    obtain ⟨gap, short, -, shape⟩ := s.target_eq_append d
    have noNul : '\x00' ∉ gap ∧ (String.ofList gap).utf8ByteSize ≤ 1 := by
      rcases short with rfl | rfl <;> decide
    rw [shape]
    refine check_eq_ok.mpr ⟨by simp [BlockPath.stagedPath], ?_, ?_⟩
    · simp only [List.mem_append, not_or]
      exact ⟨⟨suitable.noNul, noNul.1⟩, fun h => (BlockPath.small_of_mem_stagedPath h).2 rfl⟩
    · have room := suitable.short
      rw [String.ofList_append, String.utf8ByteSize_append, String.ofList_append,
        String.utf8ByteSize_append, BlockPath.utf8ByteSize_stagedPath]
      omega
  named := s.names_withExtension_target d
  short := by
    intro name h
    rw [names_withExtension_target] at h
    rcases List.mem_append.mp h with early | last
    · exact suitable.short_of_mem_way early
    · refine BlockPath.short_of_mem_names_stagedPath (d := d) ?_
      rw [BlockPath.names_stagedPath]
      exact List.mem_append_right _ last
  plain := plain_of_long (by simp [staging])
  noSlash := by
    obtain ⟨gap, -, -, shape⟩ := s.target_eq_append d
    rw [Path.endsInSlash, shape, BlockPath.stagedPath, List.getLast?_append_of_ne_nil _ (by simp),
      List.getLast?_append_of_ne_nil _ (by simp), List.getLast?_append_of_ne_nil _ (by simp)]
    rfl

/-- A block can be named. -/
theorem names_target (suitable : s.Suitable) (d : Digest) :
    Names (s.target d) (s.way d) (String.ofList (BlockPath.fileName d)) where
  fine := by
    obtain ⟨gap, -, whole, shape⟩ := s.target_eq_append d
    refine check_of_prefix (suitable.names_beside d).fine ?_ ?_
    · rw [shape, whole, BlockPath.stagedPath]
      exact ⟨'.' :: staging, by simp only [List.append_assoc]⟩
    · rw [whole]
      simp [BlockPath.fileName_ne_nil]
  named := s.names_target_eq_way d
  short := by
    intro name h
    rw [names_target_eq_way] at h
    rcases List.mem_append.mp h with early | last
    · exact suitable.short_of_mem_way early
    · have ascii : ∀ c ∈ BlockPath.fileName d, c.utf8Size = 1 := fun c h =>
        (BlockPath.small_of_mem_symbols (List.mem_of_mem_drop h)).1
      have file := utf8ByteSize_ofList_of_ascii ascii
      rw [List.mem_singleton.mp last, file, BlockPath.fileName, List.length_drop,
        BlockPath.length_symbols]
      decide
  plain := plain_of_long (by simp [BlockPath.fileName, BlockPath.length_symbols])
  noSlash := s.endsInSlash_target d

/-- A base that never climbs keeps away from what is below it. -/
theorem of_level (level : ".." ∉ Path.names s.base)
    (start : s.disk.entry? (s.disk.start s.base) = some .directory) (noNul : '\x00' ∉ s.base)
    (short : (String.ofList s.base).utf8ByteSize + 67 ≤ longestPath)
    (shortNames : ∀ name ∈ Path.names s.base, name.utf8ByteSize ≤ longestName) : s.Suitable where
  start := start
  noNul := noNul
  short := short
  shortNames := shortNames
  clear := clear_of_level level
  apart := by
    intro d way
    have below := length_le_origin level way
    rw [beside_eq, BlockPath.names_stagedPath, List.length_append, List.length_append,
      List.length_singleton] at below
    omega

end Suitable

/-! ## Nothing in the way -/

/-- Nothing is in the way of any block. -/
structure Usable (s : Directory) : Prop extends Suitable s where
  rooted : s.disk.Rooted
  /-- No file is on the way to a block. -/
  free : ∀ d, Free s.disk (s.disk.start s.base) (s.way d)
  /-- No directory is in the place of a block. -/
  place : ∀ d, s.disk.entry? (s.place d) ≠ some .directory
  /-- No directory is in the place of a file next to a block. -/
  beside : ∀ d, s.disk.entry? (s.beside d) ≠ some .directory

theorem Suitable.ne_beside (suitable : s.Suitable) {d d' : Digest} {l : Location}
    (way : OnTheWay (s.disk.start s.base) (s.way d) l) : l ≠ s.beside d' := by
  intro same
  rcases way_cases way with above | ⟨below, isBelow, leads⟩
  · exact suitable.apart d' (same ▸ above)
  · have short := isBelow.length_le
    rw [leads, beside_eq, BlockPath.names_stagedPath] at same
    have long := congrArg List.length (List.append_cancel_left same)
    rw [List.length_append, BlockPath.length_names_stem, List.length_singleton] at long
    rw [BlockPath.length_names_stem] at short
    omega

/-- What is read, written or removed under the path of a block is at its place. -/
theorem stat_target_cases (usable : s.Usable) (d : Digest) :
    (∃ data, s.disk.entry? (s.place d) = some (.file data) ∧
        s.disk.stat (s.target d) = .ok (.file data)) ∨
      s.disk.stat (s.target d) = .error .notFound := by
  have names := usable.names_target d
  have free : Free s.disk (s.disk.start (s.target d)) (s.way d) := by
    rw [start_target]
    exact usable.free d
  rcases names.stat_cases free with ⟨e, there, found⟩ | missing
  · rw [follow_target] at there
    cases e with
    | directory => exact absurd there (usable.place d)
    | file data => exact Or.inl ⟨data, there, found⟩
  · exact Or.inr missing

/-- The directories of a block can be made. -/
theorem Usable.makeDirectories (usable : s.Usable) (d : Digest) :
    s.disk.makeDirectories ((Path.parent? (s.target d)).getD (s.target d))
      = (.ok (), s.prepared d) ∧
      (s.prepared d).Rooted ∧ Open (s.prepared d) (s.disk.start s.base) (s.way d) := by
  obtain ⟨parent, -, isParent, -, -⟩ := s.parent?_target d
  have names := usable.names_target d
  have tight : Path.IsTight (s.target d) := by
    obtain ⟨gap, -, whole, -⟩ := s.target_eq_append d
    rw [whole]
    exact Path.isTight_of_name (BlockPath.fileName_ne_nil d) (BlockPath.slash_notMem_fileName d)
      (Path.ne_dot_of_dotless (BlockPath.dot_notMem_fileName d))
  obtain ⟨dots, name, named⟩ := Path.names_of_parent? tight isParent
  have way : s.way d = Path.names parent ++ List.replicate dots "." := by
    rw [names.named] at named
    exact (List.append_inj' named rfl).1
  have start : s.disk.start parent = s.disk.start s.base := by
    rw [start_parent isParent, start_target]
  obtain ⟨made, succeeds, rooted, isOpen⟩ := makeDirectories_of_free usable.rooted
    (fun some => check_of_prefix names.fine (Path.parent?_prefix isParent) some)
    (Path.isTight_of_parent? isParent)
    (fun n h => usable.short_of_mem_way (way ▸ List.mem_append_left _ h))
    (start ▸ usable.start)
    (by
      have free := usable.free d
      rw [way] at free
      exact start ▸ free.left)
  have prepared : s.prepared d = made := by
    rw [Directory.prepared, isParent, Option.getD_some, succeeds]
  rw [isParent, Option.getD_some, prepared]
  refine ⟨succeeds, rooted, fun l onWay => ?_⟩
  rw [way, ← start] at onWay
  exact isOpen l (onTheWay_dots onWay)

theorem Suitable.beside_eq_concat (suitable : s.Suitable) (d : Digest) :
    s.beside d = follow (s.disk.start s.base) (s.way d)
      ++ [String.ofList (BlockPath.fileName d ++ '.' :: staging)] :=
  (suitable.names_beside d).follow_eq _

theorem Suitable.place_eq_concat (suitable : s.Suitable) (d : Digest) :
    s.place d
      = follow (s.disk.start s.base) (s.way d) ++ [String.ofList (BlockPath.fileName d)] := by
  rw [← follow_target, (suitable.names_target d).follow_eq, start_target]

theorem Usable.prepared_beside (usable : s.Usable) (d d' : Digest) :
    Disk.entry? (s.prepared d) (s.beside d') ≠ some .directory := by
  intro stands
  have makes := s.onlyMakes_prepared_way d
  rcases makes.entry? (s.beside d') with same | ⟨-, -, way⟩
  · exact usable.beside d' (same ▸ stands)
  · exact usable.ne_beside way rfl

theorem Usable.prepared_place (usable : s.Usable) (d d' : Digest) :
    Disk.entry? (s.prepared d) (s.place d') ≠ some .directory := by
  rw [entry?_prepared_place usable.clear]
  exact usable.place d'

/-- Once the directories of a block are made, a file can be written next to its place. -/
theorem Usable.createFile_beside (usable : s.Usable) (d : Digest) (data : Bytes) :
    (s.prepared d).createFile (Path.withExtension (s.target d) staging) data
      = .ok ((s.prepared d).set (s.beside d) (.file data)) := by
  obtain ⟨-, -, isOpen⟩ := usable.makeDirectories d
  have keeps := s.keeps_prepared d
  have free := usable.prepared_beside d d
  have leads : follow (s.disk.start s.base) (Path.names (Path.withExtension (s.target d) staging))
      = s.beside d := rfl
  generalize s.prepared d = prepared at *
  have start : prepared.start (Path.withExtension (s.target d) staging) = s.disk.start s.base := by
    rw [keeps.start, start_withExtension_target]
  rw [← start] at isOpen leads
  rw [← leads] at free ⊢
  exact (usable.names_beside d).createFile isOpen free data

/-- The file next to the place of a block can take its place. -/
theorem Usable.rename_beside (usable : s.Usable) (d : Digest) (data : Bytes) :
    Disk.rename ((s.prepared d).set (s.beside d) (.file data))
        (Path.withExtension (s.target d) staging) (s.target d)
      = .ok ((Disk.erase ((s.prepared d).set (s.beside d) (.file data)) (s.beside d)).set
          (s.place d) (.file data)) := by
  obtain ⟨-, -, isOpen⟩ := usable.makeDirectories d
  have below := s.beside_ne_nil d
  have apart := s.beside_ne_place d d
  have keeps : KeepsDirectories (s.prepared d) ((s.prepared d).set (s.beside d) (.file data)) :=
    .set below (usable.prepared_beside d d) _
  have there : Disk.entry? ((s.prepared d).set (s.beside d) (.file data)) (s.beside d)
      = some (.file data) := by
    rw [entry?_set below, if_pos rfl]
  have free : Disk.entry? ((s.prepared d).set (s.beside d) (.file data)) (s.place d)
      ≠ some .directory := by
    rw [entry?_set below, if_neg apart.symm]
    exact usable.prepared_place d d
  replace isOpen := isOpen.keeps keeps
  replace keeps := (s.keeps_prepared d).trans keeps
  have start := keeps.start (s.target d)
  have start' := keeps.start (Path.withExtension (s.target d) staging)
  have leads : follow (s.disk.start s.base) (Path.names (Path.withExtension (s.target d) staging))
      = s.beside d := rfl
  -- From here on the disk with that file is any disk.
  generalize (s.prepared d).set (s.beside d) (.file data) = staged at *
  have isOpen' : Open staged (staged.start (s.target d)) (s.way d) := by
    rw [start, start_target]
    exact isOpen
  rw [start_withExtension_target] at start'
  rw [← start'] at isOpen leads
  rw [← follow_target, ← start] at free apart ⊢
  rw [← leads] at there apart ⊢
  exact (usable.names_target d).rename (usable.names_beside d) isOpen' isOpen there free apart

/-- A block can be written. -/
theorem Usable.put_done (usable : s.Usable) (d : Digest) (data : Bytes) :
    ∃ disk, s.put (BlockPath.write features d) data = (.ok (), { s with disk }) := by
  rw [put, resolve_write]
  dsimp only
  rw [(usable.makeDirectories d).1]
  dsimp only
  rw [usable.createFile_beside d data]
  dsimp only
  rw [usable.rename_beside d data]
  exact ⟨_, rfl⟩

/-- Writing a block makes no directories but those on the way to it. -/
theorem Stages.directory {made disk : Disk} {result : Except Failure Unit}
    (stages : Stages s d data made result disk) {l : Location}
    (stands : disk.entry? l = some .directory) : made.entry? l = some .directory := by
  have below := s.beside_ne_nil d
  have below' := s.place_ne_nil d
  cases stages with
  | made f => exact stands
  | staged f free =>
    rw [entry?_set below] at stands
    split at stands
    · cases stands
    · exact stands
  | placed free free' located =>
    rw [entry?_set below', entry?_erase below, entry?_set below] at stands
    split at stands
    · cases stands
    · split at stands
      · cases stands
      · exact stands

/-- Writing a block keeps the disk a tree. -/
theorem Stages.rooted {made disk : Disk} (stages : Stages s d data made (.ok ()) disk)
    (suitable : s.Suitable) (rooted : made.Rooted)
    (stands : made.entry? (follow (s.disk.start s.base) (s.way d)) = some .directory) :
    disk.Rooted := by
  cases stages with
  | placed free free' located =>
    have below := s.beside_ne_nil d
    have apart := s.beside_ne_place d d
    have staged : Disk.Rooted (made.set (s.beside d) (.file data)) :=
      rooted.set (suitable.beside_eq_concat d) stands fun same => absurd same free
    have stagedFile : Disk.entry? (made.set (s.beside d) (.file data)) (s.beside d)
        ≠ some .directory := by
      rw [entry?_set below, if_pos rfl]
      nofun
    have keeps : KeepsDirectories made ((made.set (s.beside d) (.file data)).erase (s.beside d)) :=
      (KeepsDirectories.set below free _).trans (.erase below stagedFile)
    refine (staged.erase below stagedFile).set (suitable.place_eq_concat d) (keeps.entry? stands) ?_
    rw [entry?_erase below, if_neg apart.symm, entry?_set below, if_neg apart.symm]
    exact fun same => absurd same free'

/-- Writing a block puts nothing in the way. -/
theorem Usable.put (usable : s.Usable)
    (h : s.put (BlockPath.write features d) data = (.ok (), s')) : s'.Usable := by
  obtain ⟨-, rooted, isOpen⟩ := usable.makeDirectories d
  obtain ⟨base, stages⟩ := put_stages h
  have later : Later s s' := ⟨base, (s.keeps_prepared d).trans stages.keeps⟩
  refine ⟨usable.later later, ?_, ?_, ?_, ?_⟩
  · exact stages.rooted usable.toSuitable rooted (isOpen _ (onTheWay_end _ _))
  · intro d' l way content there
    rw [later.base, later.keeps.start, later.way] at way
    rw [stages.entry? (usable.ne_beside way) (usable.clear.ne_place way)] at there
    exact (usable.free d').onlyMakes (s.onlyMakes_prepared_way d) l way content there
  · intro d' stands
    rw [later.place] at stands
    exact usable.prepared_place d d' (stages.directory stands)
  · intro d' stands
    rw [later.beside] at stands
    exact usable.prepared_beside d d' (stages.directory stands)

/-- A block can be removed, whether or not it is there. -/
theorem Usable.delete_done (usable : s.Usable) (d : Digest) :
    ∃ s', s.delete (BlockPath.write features d) = .ok s' := by
  have free : Free s.disk (s.disk.start (s.target d)) (s.way d) := by
    rw [start_target]
    exact usable.free d
  have free' : s.disk.entry? (follow (s.disk.start (s.target d)) (Path.names (s.target d)))
      ≠ some .directory := by
    rw [follow_target]
    exact usable.place d
  rw [delete, resolve_write]
  rcases (usable.names_target d).remove_cases free free' with ⟨disk, removed⟩ | missing
  · exact ⟨{ s with disk }, by simp only [bind, Except.bind, removed]; rfl⟩
  · exact ⟨s, by simp only [bind, Except.bind, missing]; rfl⟩

/-- Removing a block puts nothing in the way. -/
theorem Usable.delete (usable : s.Usable) (h : s.delete (BlockPath.write features d) = .ok s') :
    s'.Usable := by
  obtain ⟨later, -, -, -⟩ := delete_spec h
  rcases delete_cases h with rfl | ⟨data, there, rfl⟩
  · exact usable
  · have below := s.place_ne_nil d
    have lost : ∀ {l e}, Disk.entry? (s.disk.erase (s.place d)) l = some e →
        s.disk.entry? l = some e := by
      intro l e there
      rw [entry?_erase below] at there
      split at there
      · cases there
      · exact there
    refine ⟨usable.later later, ?_, ?_, ?_, ?_⟩
    · exact usable.rooted.erase below (usable.place d)
    · intro d' l way content there
      exact usable.free d' l way content (lost there)
    · intro d' stands
      exact usable.place d' (lost stands)
    · intro d' stands
      exact usable.beside d' (lost stands)

/-! ## Directories that hold nothing yet -/

/-- A directory that holds no file, with nothing in the way of any block.  It may not have been made
yet, and there may be other directories in it. -/
structure Vacant (s : Directory) : Prop extends Usable s where
  empty : ∀ names content, names ≠ [] → s.disk.entry? (s.origin ++ names) ≠ some (.file content)

/-- A directory below which there is nothing at all, and to which no file bars the way. -/
theorem Suitable.vacant (suitable : s.Suitable) (rooted : s.disk.Rooted)
    (free : Free s.disk (s.disk.start s.base) (Path.names s.base))
    (nothing : ∀ names, names ≠ [] → s.disk.entry? (s.origin ++ names) = none) : s.Vacant := by
  have absent : ∀ names e, names ≠ [] → s.disk.entry? (s.origin ++ names) ≠ some e := by
    intro names e nonempty stands
    cases (nothing names nonempty).symm.trans stands
  refine ⟨⟨suitable, rooted, ?_, ?_, ?_⟩, fun names content => absent names _⟩
  · intro d l way content there
    rcases way_cases way with above | ⟨below, -, rfl⟩
    · exact free l above content there
    · by_cases none : below = []
      · rw [none, List.append_nil] at there
        exact free s.origin (onTheWay_end _ _) content there
      · exact absent below _ none there
  · intro d
    exact absent _ _ (BlockPath.directoryNames_ne_nil d)
  · intro d
    rw [beside_eq]
    exact absent _ _ (by simp [BlockPath.names_stagedPath])

/-- On a disk with nothing on it a directory holds nothing. -/
theorem vacant_of_empty {base : List Char} (suitable : (⟨base, .empty⟩ : Directory).Suitable) :
    (⟨base, .empty⟩ : Directory).Vacant := by
  refine suitable.vacant (fun l name there => absurd (entry?_empty (by simp)) there) ?_
    fun names nonempty => entry?_empty (by simp [nonempty])
  intro l _ content there
  by_cases below : l = []
  · rw [below] at there
    cases there
  · cases (entry?_empty below).symm.trans there

/-- Where a block would be there is nothing. -/
theorem Vacant.entry?_place (vacant : s.Vacant) (d : Digest) :
    s.disk.entry? (s.place d) = none := by
  rcases there : s.disk.entry? (s.place d) with _ | (_ | content)
  · rfl
  · exact absurd there (vacant.place d)
  · exact absurd there (vacant.empty _ content (BlockPath.directoryNames_ne_nil d))

end Directory

/-! ## Stores -/

namespace ObjectStore

variable {s s' : ObjectStore} {d : Digest} {data : Bytes}

/-- Nothing is in the way of any block. -/
def Usable : ObjectStore → Prop
  | .memory _ => True
  | .directory s => s.Usable

/-- A store that holds nothing yet. -/
def Vacant : ObjectStore → Prop
  | .memory objects => objects = ∅
  | .directory s => s.Vacant

namespace Usable

/-- A block can be written. -/
theorem put_done (usable : s.Usable) (d : Digest) (data : Bytes) :
    ∃ s', s.put (BlockPath.write s.features d) data = (.ok (), s') := by
  cases s with
  | memory objects => exact ⟨_, rfl⟩
  | directory s =>
    obtain ⟨disk, done⟩ := Directory.Usable.put_done usable d data
    exact ⟨_, put_directory done⟩

/-- Writing a block puts nothing in the way. -/
theorem put (usable : s.Usable) (h : s.put (BlockPath.write s.features d) data = (.ok (), s')) :
    s'.Usable := by
  cases s with
  | memory objects =>
    cases h
    trivial
  | directory s =>
    rcases step : s.put (BlockPath.write Directory.features d) data with ⟨result, t⟩
    cases (put_directory step).symm.trans h
    exact Directory.Usable.put usable step

/-- A block can be removed, whether or not it is there. -/
theorem delete_done (usable : s.Usable) (d : Digest) :
    ∃ s', s.delete (BlockPath.write s.features d) = .ok s' := by
  cases s with
  | memory objects => exact ⟨_, rfl⟩
  | directory s =>
    obtain ⟨t, done⟩ := Directory.Usable.delete_done usable d
    refine ⟨.directory t, ?_⟩
    change (s.delete (BlockPath.write Directory.features d)).map _ = _
    rw [done]
    rfl

/-- Removing a block puts nothing in the way. -/
theorem delete (usable : s.Usable) (h : s.delete (BlockPath.write s.features d) = .ok s') :
    s'.Usable := by
  cases s with
  | memory objects =>
    cases h
    trivial
  | directory s =>
    obtain ⟨t, step, rfl⟩ := delete_directory h
    exact Directory.Usable.delete usable step

end Usable

namespace Vacant

theorem usable (vacant : s.Vacant) : s.Usable := by
  cases s with
  | memory objects => trivial
  | directory s => exact Directory.Vacant.toUsable vacant

theorem regular (vacant : s.Vacant) : s.Regular := by
  cases s with
  | memory objects =>
    cases (vacant : objects = ∅)
    exact regular_inMemory
  | directory s =>
    exact regular_directory vacant.clear (Directory.Vacant.entry?_place vacant) vacant.empty

theorem held (vacant : s.Vacant) (d : Digest) : s.held d = none := by
  cases s with
  | memory objects =>
    cases (vacant : objects = ∅)
    exact held_inMemory
  | directory s => rw [ObjectStore.held, Directory.Vacant.entry?_place vacant]

end Vacant

end ObjectStore

/-! ## What is asked of a block -/

namespace Bytes

/-- All the bytes that are left are no fewer than there are. -/
theorem window_rest (offset : Nat) (bytes : Bytes) :
    bytes.window offset (some (bytes.length - offset)) = bytes.window offset none := by
  rw [window, window, ← List.length_drop, List.take_length]

/-- A limit beyond the end is no limit. -/
theorem window_min (offset most : Nat) (bytes : Bytes) :
    bytes.window offset (some (min most (bytes.length - offset)))
      = bytes.window offset (some most) := by
  rw [window, window, ← List.length_drop, ← List.take_eq_take_min]

end Bytes

namespace Directory

variable {s : Directory} {path : String} {target : List Char} {data : Bytes}

/-- Reading a part of a file gives that part. -/
theorem read_of_stat (resolved : s.resolve path = .ok target)
    (found : s.disk.stat target = .ok (.file data)) (offset : Nat) (limit : Option Nat) :
    s.read path offset limit = .ok (data.window offset limit) := by
  have cut : ∀ wanted : Nat, (if wanted = 0 then .ok [] else .ok (data.window offset (some wanted)))
      = (.ok (data.window offset (some wanted)) : Except Failure Bytes) := by
    intro wanted
    split
    · next nothing => rw [nothing, Bytes.window, List.take_zero]
    · rfl
  rw [read, resolved]
  simp only [bind, Except.bind, found, Except.mapError]
  cases limit with
  | none => exact (cut _).trans (congrArg Except.ok (Bytes.window_rest offset data))
  | some most => exact (cut _).trans (congrArg Except.ok (Bytes.window_min offset most data))

end Directory

namespace ObjectStore

variable {s : ObjectStore} {d : Digest} {data : Bytes}

/-- What a store answers about a block that it holds. -/
structure Answers (s : ObjectStore) (d : Digest) (data : Bytes) : Prop where
  isThere : s.isThere (BlockPath.write s.features d) = .ok true
  read : ∀ offset limit, s.read (BlockPath.write s.features d) offset limit
    = .ok (data.window offset limit)
  size : s.size (BlockPath.write s.features d) = .ok data.length

/-- What a store answers about a block that it does not hold. -/
structure Misses (s : ObjectStore) (d : Digest) : Prop where
  isThere : s.isThere (BlockPath.write s.features d) = .ok false
  read : ∀ offset limit, ∃ f, s.read (BlockPath.write s.features d) offset limit = .error f ∧
    f.isNotFound = true
  size : ∃ f, s.size (BlockPath.write s.features d) = .error f ∧ f.isNotFound = true

theorem answers_of_block? (h : s.block? d = some data) : s.Answers d data := by
  obtain ⟨isOpen, held⟩ := block?_eq_some.mp h
  cases s with
  | memory objects =>
    refine ⟨?_, fun offset limit => ?_, ?_⟩
    · exact (isThere_memory objects d).trans (congrArg (Except.ok ∘ Option.isSome) held)
    · rw [read]
      simp only
        [show objects[BlockPath.write (features (.memory objects)) d]? = some data from held]
    · rw [size]
      simp only
        [show objects[BlockPath.write (features (.memory objects)) d]? = some data from held]
  | directory s =>
    have there := held_directory_eq_some.mp held
    have found : s.disk.stat (s.target d) = .ok (.file data) :=
      Directory.stat_target.mpr ⟨isOpen, there⟩
    refine ⟨?_, Directory.read_of_stat (Directory.resolve_write _ d) found, ?_⟩
    · exact Directory.isThere_write.mpr ⟨isOpen, _, there⟩
    · change s.size (BlockPath.write Directory.features d) = _
      rw [Directory.size, Directory.resolve_write]
      simp only [bind, Except.bind, found]
      rfl

theorem Usable.misses (usable : s.Usable) (h : s.block? d = none) : s.Misses d := by
  cases s with
  | memory objects =>
    have absent : objects[BlockPath.write (features (.memory objects)) d]? = none := by
      rcases there : objects[BlockPath.write (features (.memory objects)) d]? with _ | data
      · rfl
      · cases h.symm.trans (block?_eq_some.mpr ⟨trivial, there⟩)
    refine ⟨?_, fun offset limit => ⟨.missing, ?_, rfl⟩, .missing, ?_, rfl⟩
    · exact (isThere_memory objects d).trans (congrArg (Except.ok ∘ Option.isSome) absent)
    · rw [read]
      simp only [absent]
    · rw [size]
      simp only [absent]
  | directory s =>
    have missing : s.disk.stat (s.target d) = .error .notFound := by
      rcases Directory.stat_target_cases usable d with ⟨data, there, found⟩ | missing
      · obtain ⟨isOpen, -⟩ := Directory.stat_target.mp found
        have readable : block? (.directory s) d = some data :=
          block?_eq_some.mpr ⟨isOpen, held_directory_eq_some.mpr there⟩
        cases h.symm.trans readable
      · exact missing
    refine ⟨?_, fun offset limit => ⟨.io .notFound, ?_, rfl⟩, .io .notFound, ?_, rfl⟩
    · change s.isThere (BlockPath.write Directory.features d) = _
      rw [Directory.isThere, Directory.resolve_write]
      simp only [bind, Except.bind, Disk.isThere, missing]
      rfl
    · change s.read (BlockPath.write Directory.features d) offset limit = _
      rw [Directory.read, Directory.resolve_write]
      simp only [bind, Except.bind, missing]
      rfl
    · change s.size (BlockPath.write Directory.features d) = _
      rw [Directory.size, Directory.resolve_write]
      simp only [bind, Except.bind, missing]
      rfl

end ObjectStore

end PinnedStore
