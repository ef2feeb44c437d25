import PinnedStore.Proofs.Disk.Walk
import PinnedStore.Proofs.Storage.BlockPath

/-!
# The places of blocks in a directory

Every block has one place on the disk, whether or not something stands there and whether or not the
way to it is open: the end of the walk along the base of the store and five names more.  Two blocks
have different places.

A write makes directories and a file next to the target before it puts anything at the target's
place, and none of that may land at the place of another block.  The directories below the base and
the file next to the target never do, by their depth and by the dot in the name.  The directories
*above* the base could: a base may climb with names of two dots, and then pass by places that lie
below itself.  A store whose base does not do that is `Clear`; every base without names of two dots
is.

* `Directory.place`, `place_injective`: the place of a block.
* `Directory.Clear`, `clear_of_level`: the base keeps away from the places of blocks.
* `Directory.put_spec`, `Directory.delete_spec`: what writing and removing a block does at all
  places.
-/

namespace PinnedStore.Directory

open Disk

/-- Where the base leads. -/
def origin (s : Directory) : Location :=
  follow (s.disk.start s.base) (Path.names s.base)

/-- Where the path of a block leads. -/
def place (s : Directory) (d : Digest) : Location :=
  s.origin ++ BlockPath.directoryNames d

/-- The path of a block on the disk. -/
def target (s : Directory) (d : Digest) : List Char :=
  Path.join s.base (BlockPath.write features d).toList

/-- The names on the way to the directory of a block. -/
def way (s : Directory) (d : Digest) : List String :=
  Path.names s.base ++ Path.names (BlockPath.stem d)

/-- The base does not pass by the place of a block. -/
def Clear (s : Directory) : Prop :=
  ∀ d, ¬ OnTheWay (s.disk.start s.base) (Path.names s.base) (s.place d)

/-- Nothing but files stands at the places of blocks, each named by its content, and nothing else
can get there. -/
structure Sound (s : Directory) : Prop where
  clear : s.Clear
  file : ∀ {d e}, s.disk.entry? (s.place d) = some e → ∃ data, e = .file data ∧ Digest.of data = d

variable {s : Directory} {d d' : Digest}

theorem place_injective (s : Directory) : Function.Injective s.place :=
  fun _ _ same => BlockPath.directoryNames_injective (List.append_cancel_left same)

theorem length_place (s : Directory) (d : Digest) : (s.place d).length = s.origin.length + 5 := by
  rw [place, List.length_append, BlockPath.length_directoryNames]

theorem place_ne_nil (s : Directory) (d : Digest) : s.place d ≠ [] := by
  intro none
  have := s.length_place d
  rw [none] at this
  simp at this

theorem resolve_write (s : Directory) (d : Digest) :
    s.resolve (BlockPath.write features d) = .ok (s.target d) := by
  rw [resolve, BlockPath.escapes_write, if_neg Bool.false_ne_true]
  rfl

/-- The path of a block is the way to its directory and its name. -/
theorem target_eq (s : Directory) (d : Digest) : ∃ front,
    s.target d = front ++ BlockPath.stem d ++ BlockPath.fileName d ∧
      Path.names (front ++ BlockPath.stem d)
        = Path.names s.base ++ Path.names (BlockPath.stem d) := by
  obtain ⟨front, whole, isFront, named⟩ := Path.join_eq s.base (BlockPath.isAbsolute_write d)
  refine ⟨front, ?_, ?_⟩
  · rw [target, whole, BlockPath.write_eq, List.append_assoc]
  · rw [Path.names_isFront_append isFront, named]

theorem start_target (s : Directory) (d : Digest) :
    s.disk.start (s.target d) = s.disk.start s.base := by
  rw [start, start, target, Path.isAbsolute_join s.base (BlockPath.isAbsolute_write d)]

theorem isFront_target (front : List Char) (d : Digest) :
    Path.IsFront (front ++ BlockPath.stem d) :=
  Path.IsFront.append (BlockPath.isFront_stem d)

theorem names_target (s : Directory) (d : Digest) :
    Path.names (s.target d) = Path.names s.base ++ BlockPath.directoryNames d := by
  obtain ⟨front, whole, named⟩ := s.target_eq d
  rw [whole, Path.names_isFront_append (isFront_target front d), named, BlockPath.directoryNames_eq,
    Path.names_of_plain (BlockPath.fileName_ne_nil d) (BlockPath.slash_notMem_fileName d),
    List.append_assoc]

theorem follow_target (s : Directory) (d : Digest) :
    follow (s.disk.start (s.target d)) (Path.names (s.target d)) = s.place d := by
  rw [names_target, start_target, follow_append, follow_of_dotless _ fun _ => BlockPath.dotless]
  rfl

theorem endsInSlash_target (s : Directory) (d : Digest) :
    Path.endsInSlash (s.target d) = false := by
  obtain ⟨front, whole, -⟩ := s.target_eq d
  have nonempty := BlockPath.fileName_ne_nil d
  rw [Path.endsInSlash, whole, List.getLast?_append_of_ne_nil _ nonempty,
    List.getLast?_eq_getLast_of_ne_nil nonempty]
  have plain : (BlockPath.fileName d).getLast nonempty ≠ '/' := fun slash =>
    BlockPath.slash_notMem_fileName d (slash ▸ List.getLast_mem nonempty)
  simpa using plain

/-! ## Names that lead past no block -/

/-- The directories of a block lie above the places of all blocks. -/
theorem ne_place_of_prefix_stem {names : List String}
    (early : names <+: Path.names (BlockPath.stem d)) :
    s.origin ++ names ≠ s.place d' := by
  intro same
  have long := congrArg List.length same
  rw [length_place, List.length_append] at long
  have short := early.length_le
  rw [BlockPath.length_names_stem] at short
  omega

/-- What is on the way to a block's directory is on the way along the base, or lies not too far
below its end. -/
theorem way_cases {l : Location}
    (way : OnTheWay (s.disk.start s.base) (s.way d) l) :
    OnTheWay (s.disk.start s.base) (Path.names s.base) l ∨
      ∃ below, below <+: Path.names (BlockPath.stem d) ∧ l = s.origin ++ below := by
  obtain ⟨early, isEarly, rfl⟩ := way
  rw [Directory.way] at isEarly
  rcases List.prefix_or_prefix_of_prefix isEarly (List.prefix_append _ _) with above | ⟨below, rfl⟩
  · exact Or.inl ⟨early, above, rfl⟩
  · have isBelow := (List.prefix_append_right_inj _).mp isEarly
    have dotless : ∀ name ∈ below, '.' ∉ name.toList := fun name h =>
      BlockPath.dotless (d := d) (by
        rw [BlockPath.directoryNames_eq]
        exact List.mem_append_left _ (isBelow.subset h))
    refine Or.inr ⟨below, isBelow, ?_⟩
    rw [follow_append, follow_of_dotless _ dotless]
    rfl

/-- Where nothing on the way to a block's directory lies at the place of a block. -/
theorem Clear.ne_place (clear : s.Clear) {l : Location}
    (way : OnTheWay (s.disk.start s.base) (s.way d) l) :
    l ≠ s.place d' := by
  rcases way_cases way with above | ⟨below, isBelow, rfl⟩
  · rintro rfl
    exact clear d' above
  · exact ne_place_of_prefix_stem isBelow

/-- Where the file next to a block lies. -/
def beside (s : Directory) (d : Digest) : Location :=
  follow (s.disk.start s.base) (Path.names (Path.withExtension (s.target d) staging))

/-- The path of the file next to a block. -/
theorem withExtension_target (s : Directory) (d : Digest) : ∃ front,
    Path.withExtension (s.target d) staging
        = front ++ BlockPath.stem d ++ (BlockPath.fileName d ++ '.' :: staging) ∧
      s.target d = front ++ BlockPath.stem d ++ BlockPath.fileName d ∧
      Path.names (front ++ BlockPath.stem d)
        = Path.names s.base ++ Path.names (BlockPath.stem d) := by
  obtain ⟨front, whole, named⟩ := s.target_eq d
  refine ⟨front, ?_, whole, named⟩
  rw [whole]
  exact Path.withExtension_of_plain (isFront_target front d) (BlockPath.fileName_ne_nil d)
    (BlockPath.slash_notMem_fileName d) (BlockPath.dot_notMem_fileName d) _

theorem start_withExtension_target (s : Directory) (d : Digest) :
    s.disk.start (Path.withExtension (s.target d) staging) = s.disk.start s.base := by
  obtain ⟨front, shape, whole, -⟩ := s.withExtension_target d
  rw [← start_target s d, Disk.start, Disk.start, shape, whole, Path.isAbsolute, Path.isAbsolute,
    List.append_assoc, List.append_assoc]
  cases front <;> rfl

/-- The file next to a block lies in the directory of the block. -/
theorem beside_eq (s : Directory) (d : Digest) :
    s.beside d = s.origin ++ Path.names (BlockPath.stagedPath d) := by
  obtain ⟨front, shape, -, named⟩ := s.withExtension_target d
  have long : ∀ name : String, name.toList.length < 46 →
      String.ofList (BlockPath.fileName d ++ '.' :: staging) ≠ name := by
    rintro _ short rfl
    simp [BlockPath.fileName, BlockPath.length_symbols, staging] at short
  have dotless : ∀ name ∈ Path.names (BlockPath.stem d), '.' ∉ name.toList := fun name h =>
    BlockPath.dotless (d := d) (by
      rw [BlockPath.directoryNames_eq]
      exact List.mem_append_left _ h)
  rw [beside, shape, Path.names_isFront_append (isFront_target front d), named,
    BlockPath.names_stagedPath, follow_append,
    Path.names_of_plain (by simp) (BlockPath.slash_notMem_stagedName d), follow,
    if_neg (long "." (by decide)), if_neg (long ".." (by decide)), follow, follow_append,
    follow_of_dotless _ dotless, List.append_assoc]
  rfl

/-- The last name next to a block has a dot in it. -/
theorem getLast?_beside (s : Directory) (d : Digest) :
    (s.beside d).getLast? = some (String.ofList (BlockPath.fileName d ++ '.' :: staging)) := by
  rw [beside_eq, BlockPath.names_stagedPath, ← List.append_assoc, List.getLast?_concat]

/-- The file next to a block is not the file of a block. -/
theorem beside_ne_place (s : Directory) (d d' : Digest) : s.beside d ≠ s.place d' := by
  intro same
  have last := s.getLast?_beside d
  rw [same, place, BlockPath.directoryNames_eq, ← List.append_assoc, List.getLast?_concat,
    Option.some_inj, String.ofList_inj] at last
  exact BlockPath.dot_notMem_fileName d' (last ▸ by simp)

theorem beside_ne_nil (s : Directory) (d : Digest) : s.beside d ≠ [] := by
  intro none
  have last := s.getLast?_beside d
  rw [none] at last
  cases last

/-! ## Later states -/

/-- The same store with a disk on which no directory has been taken away. -/
structure Later (s s' : Directory) : Prop where
  base : s'.base = s.base
  keeps : KeepsDirectories s.disk s'.disk

namespace Later

variable {s' s'' : Directory}

theorem refl (s : Directory) : Later s s := ⟨rfl, .refl _⟩

theorem origin (later : Later s s') : s'.origin = s.origin := by
  rw [Directory.origin, Directory.origin, later.base, later.keeps.start]

theorem place (later : Later s s') (d : Digest) : s'.place d = s.place d := by
  rw [Directory.place, Directory.place, later.origin]

theorem beside (later : Later s s') (d : Digest) : s'.beside d = s.beside d := by
  rw [beside_eq, beside_eq, later.origin]

theorem target (later : Later s s') (d : Digest) : s'.target d = s.target d := by
  rw [Directory.target, later.base]
  rfl

theorem way (later : Later s s') (d : Digest) : s'.way d = s.way d := by
  rw [Directory.way, Directory.way, later.base]

theorem clear (later : Later s s') (clear : s.Clear) : s'.Clear := by
  intro d
  rw [later.place, later.base, later.keeps.start]
  exact clear d

end Later

/-! ## Writing -/

theorem parent?_target (s : Directory) (d : Digest) : ∃ parent front,
    Path.parent? (s.target d) = some parent ∧
      Path.names (front ++ BlockPath.stem d) = Path.names s.base ++ Path.names (BlockPath.stem d) ∧
      Path.names parent <+: Path.names (front ++ BlockPath.stem d) := by
  obtain ⟨front, whole, named⟩ := s.target_eq d
  have split := Path.splitLast_of_plain (isFront_target front d) (BlockPath.fileName_ne_nil d)
    (BlockPath.slash_notMem_fileName d) (BlockPath.dot_notMem_fileName d)
  rcases isParent : Path.parent? (s.target d) with _ | parent
  · rw [whole, Path.parent?, split] at isParent
    simp [BlockPath.fileName_ne_nil] at isParent
  · refine ⟨parent, front, rfl, named, ?_⟩
    rw [whole] at isParent
    exact Path.names_of_parent_of_plain (isFront_target front d) (BlockPath.fileName_ne_nil d)
      (BlockPath.slash_notMem_fileName d) (BlockPath.dot_notMem_fileName d) isParent

/-- The disk once the directories of a block have been made. -/
def prepared (s : Directory) (d : Digest) : Disk :=
  (s.disk.makeDirectories ((Path.parent? (s.target d)).getD (s.target d))).2

/-- Making the directories of a block takes no directory away. -/
theorem keeps_prepared (s : Directory) (d : Digest) : KeepsDirectories s.disk (s.prepared d) :=
  (onlyMakes_makeDirectories s.disk _).keepsDirectories

/-- Making the directories of a block adds nothing but directories, on the way to the block. -/
theorem onlyMakes_prepared_way (s : Directory) (d : Digest) :
    OnlyMakes (OnTheWay (s.disk.start s.base) (s.way d)) s.disk (s.prepared d) := by
  obtain ⟨parent, front, isParent, named, early⟩ := s.parent?_target d
  rw [prepared, isParent, Option.getD_some]
  refine (onlyMakes_makeDirectories s.disk parent).mono ?_
  rintro l ⟨names, isEarly, leads⟩
  rw [start_parent isParent, start_target] at leads
  refine ⟨names, ?_, leads⟩
  rw [way, ← named]
  exact isEarly.trans early

/-- Making the directories of a block changes nothing at the place of any block. -/
theorem onlyMakes_prepared (clear : s.Clear) (d : Digest) :
    OnlyMakes (fun l => ∀ d', l ≠ s.place d') s.disk (s.prepared d) :=
  (s.onlyMakes_prepared_way d).mono fun _ way _ => clear.ne_place way

theorem entry?_prepared_place (clear : s.Clear) (d d' : Digest) :
    Disk.entry? (s.prepared d) (s.place d') = s.disk.entry? (s.place d') := by
  have made := onlyMakes_prepared clear d
  rcases made.entry? (s.place d') with same | ⟨-, -, apart⟩
  · exact same
  · exact absurd rfl (apart d')

/-- How far a write of a block gets once the directories are made: no further, to the file next to
the block, or to the place of the block. -/
inductive Stages (s : Directory) (d : Digest) (data : Bytes) (made : Disk) :
    Except Failure Unit → Disk → Prop
  | made (f : Failure) : Stages s d data made (.error f) made
  | staged (f : Failure) (free : made.entry? (s.beside d) ≠ some .directory) :
    Stages s d data made (.error f) (made.set (s.beside d) (.file data))
  | placed (free : made.entry? (s.beside d) ≠ some .directory)
    (free' : made.entry? (s.place d) ≠ some .directory)
    (located : (made.set (s.beside d) (.file data)).locate (s.target d) = .ok (s.place d)) :
    Stages s d data made (.ok ())
      (((made.set (s.beside d) (.file data)).erase (s.beside d)).set (s.place d) (.file data))

/-- Making the file next to a block. -/
theorem createFile_beside {made staged : Disk} {data : Bytes} (keeps : KeepsDirectories s.disk made)
    (h : made.createFile (Path.withExtension (s.target d) staging) data = .ok staged) :
    made.entry? (s.beside d) ≠ some .directory ∧ staged = made.set (s.beside d) (.file data) := by
  obtain ⟨location, leads, -, free, rfl⟩ := createFile_spec h
  rw [keeps.start, start_withExtension_target] at leads
  change location = s.beside d at leads
  rw [leads] at free ⊢
  exact ⟨free, rfl⟩

/-- Moving the file next to a block into its place. -/
theorem rename_beside {staged renamed : Disk} {data : Bytes}
    (keeps : KeepsDirectories s.disk staged)
    (there : staged.entry? (s.beside d) = some (.file data))
    (h : staged.rename (Path.withExtension (s.target d) staging) (s.target d) = .ok renamed) :
    staged.entry? (s.place d) ≠ some .directory ∧ staged.locate (s.target d) = .ok (s.place d) ∧
      renamed = (staged.erase (s.beside d)).set (s.place d) (.file data) := by
  obtain ⟨old, new, e, leads, leads', -, -, moves, located, shape⟩ := rename_spec h
  rw [keeps.start, start_withExtension_target] at leads
  rw [keeps.start, follow_target] at leads'
  change old = s.beside d at leads
  rw [leads, leads'] at shape
  rw [leads, there] at moves
  rw [leads'] at located
  cases moves
  rcases shape with ⟨same, -⟩ | ⟨-, free, renamed⟩
  · exact absurd same (s.beside_ne_place d d)
  · exact ⟨free, located, renamed⟩

theorem put_stages {data : Bytes} {result : Except Failure Unit} {s' : Directory}
    (h : s.put (BlockPath.write features d) data = (result, s')) :
    s'.base = s.base ∧ Stages s d data (s.prepared d) result s'.disk := by
  have keeps := s.keeps_prepared d
  rw [put, resolve_write] at h
  dsimp only at h
  rcases step : s.disk.makeDirectories ((Path.parent? (s.target d)).getD (s.target d))
    with ⟨outcome, made⟩
  have prepared : s.prepared d = made := by rw [Directory.prepared, step]
  rw [step] at h
  rw [prepared] at keeps ⊢
  rcases outcome with e | _
  · cases h
    exact ⟨rfl, .made _⟩
  dsimp only at h
  rcases isStaged : made.createFile (Path.withExtension (s.target d) staging) data with e | staged
  · rw [isStaged] at h
    cases h
    exact ⟨rfl, .made _⟩
  obtain ⟨free, shape⟩ := createFile_beside keeps isStaged
  have there : staged.entry? (s.beside d) = some (.file data) := by
    rw [shape, entry?_set (s.beside_ne_nil d), if_pos rfl]
  have keeps' : KeepsDirectories s.disk staged := by
    rw [shape]
    exact keeps.trans (.set (s.beside_ne_nil d) free _)
  rw [isStaged] at h
  dsimp only at h
  rcases isRenamed : staged.rename (Path.withExtension (s.target d) staging) (s.target d)
    with e | renamed
  · rw [isRenamed] at h
    cases h
    rw [shape]
    exact ⟨rfl, .staged _ free⟩
  · obtain ⟨free', located, shape'⟩ := rename_beside keeps' there isRenamed
    rw [isRenamed] at h
    cases h
    rw [shape', shape]
    rw [shape] at free' located
    rw [entry?_set (s.beside_ne_nil d), if_neg (Ne.symm (s.beside_ne_place d d))] at free'
    exact ⟨rfl, .placed free free' located⟩

namespace Stages

variable {data : Bytes} {made disk : Disk} {result : Except Failure Unit}

/-- Moving the file next to a block into its place takes no directory away. -/
theorem keeps_placed (free' : made.entry? (s.place d) ≠ some .directory) :
    KeepsDirectories (made.set (s.beside d) (.file data))
      (((made.set (s.beside d) (.file data)).erase (s.beside d)).set (s.place d) (.file data)) := by
  have removed : KeepsDirectories (made.set (s.beside d) (.file data))
      ((made.set (s.beside d) (.file data)).erase (s.beside d)) := by
    refine .erase (s.beside_ne_nil d) ?_
    rw [entry?_set (s.beside_ne_nil d), if_pos rfl]
    nofun
  refine removed.trans (.set (s.place_ne_nil d) ?_ _)
  rw [entry?_erase (s.beside_ne_nil d), if_neg (Ne.symm (s.beside_ne_place d d)),
    entry?_set (s.beside_ne_nil d), if_neg (Ne.symm (s.beside_ne_place d d))]
  exact free'

theorem keeps (stages : Stages s d data made result disk) : KeepsDirectories made disk := by
  cases stages with
  | made f => exact .refl made
  | staged f free => exact .set (s.beside_ne_nil d) free _
  | placed free free' located =>
    have staged : KeepsDirectories made (made.set (s.beside d) (.file data)) :=
      .set (s.beside_ne_nil d) free _
    exact staged.trans (keeps_placed free')

/-- Apart from the file next to the block and the place of the block, all is as before. -/
theorem entry? (stages : Stages s d data made result disk) {l : Location} (apart : l ≠ s.beside d)
    (apart' : l ≠ s.place d) : disk.entry? l = made.entry? l := by
  cases stages with
  | made f => rfl
  | staged f free => rw [entry?_set (s.beside_ne_nil d), if_neg apart]
  | placed free free' located =>
    rw [entry?_set (s.place_ne_nil d), if_neg apart', entry?_erase (s.beside_ne_nil d),
      if_neg apart, entry?_set (s.beside_ne_nil d), if_neg apart]

/-- At the place of the block all is as before, or the write has succeeded and the block is
there. -/
theorem place (stages : Stages s d data made result disk) :
    (disk.entry? (s.place d) = made.entry? (s.place d) ∧ result ≠ .ok ()) ∨
      (disk.entry? (s.place d) = some (.file data) ∧
        disk.locate (s.target d) = .ok (s.place d)) := by
  cases stages with
  | made f => exact Or.inl ⟨rfl, nofun⟩
  | staged f free =>
    refine Or.inl ⟨?_, nofun⟩
    rw [entry?_set (s.beside_ne_nil d), if_neg (Ne.symm (s.beside_ne_place d d))]
  | placed free free' located =>
    refine Or.inr ⟨?_, (keeps_placed free').locate located⟩
    rw [entry?_set (s.place_ne_nil d), if_pos rfl]

end Stages

/-- What writing a block does: nothing at the places of other blocks, and at its own place nothing
but the block.  A write that succeeds opens the way to the block. -/
theorem put_spec (clear : s.Clear) {data : Bytes} {result : Except Failure Unit} {s' : Directory}
    (h : s.put (BlockPath.write features d) data = (result, s')) :
    Later s s' ∧ (∀ d' ≠ d, s'.disk.entry? (s.place d') = s.disk.entry? (s.place d')) ∧
      (s'.disk.entry? (s.place d) = s.disk.entry? (s.place d)
        ∨ s'.disk.entry? (s.place d) = some (.file data)) ∧
      (result = .ok () → s'.disk.locate (s.target d) = .ok (s.place d)
        ∧ s'.disk.entry? (s.place d) = some (.file data)) := by
  obtain ⟨base, stages⟩ := put_stages h
  have keeps := (s.keeps_prepared d).trans stages.keeps
  refine ⟨⟨base, keeps⟩, fun d' other => ?_, ?_, fun succeeds => ?_⟩
  · have apart : s.place d' ≠ s.place d := fun same => other (s.place_injective same)
    rw [stages.entry? (Ne.symm (s.beside_ne_place d d')) apart, entry?_prepared_place clear]
  · rcases stages.place with ⟨same, -⟩ | ⟨written, -⟩
    · rw [same, entry?_prepared_place clear]
      exact Or.inl rfl
    · exact Or.inr written
  · rcases stages.place with ⟨-, failed⟩ | ⟨written, located⟩
    · exact absurd succeeds failed
    · exact ⟨located, written⟩

/-! ## Removing -/

/-- Removing a block takes away the file at its place, if there is one, and does nothing else. -/
theorem delete_cases {s' : Directory} (h : s.delete (BlockPath.write features d) = .ok s') :
    s' = s ∨ ∃ data, s.disk.entry? (s.place d) = some (.file data) ∧
      s' = { s with disk := s.disk.erase (s.place d) } := by
  rw [delete, resolve_write] at h
  simp only [bind, Except.bind] at h
  split at h
  · next removed isRemoved =>
    cases h
    obtain ⟨location, data, leads, -, there, rfl⟩ := remove_spec isRemoved
    rw [follow_target] at leads
    subst leads
    exact Or.inr ⟨data, there, rfl⟩
  · split at h
    · cases h
      exact Or.inl rfl
    · cases h

/-- What removing a block does: nothing to directories, and nothing at the places of other
blocks. -/
theorem delete_spec {s' : Directory} (h : s.delete (BlockPath.write features d) = .ok s') :
    Later s s' ∧ Later s' s ∧
      (∀ d' ≠ d, s'.disk.entry? (s.place d') = s.disk.entry? (s.place d')) ∧
      (s'.disk.entry? (s.place d) = s.disk.entry? (s.place d)
        ∨ s'.disk.entry? (s.place d) = none) := by
  rcases delete_cases h with rfl | ⟨data, there, rfl⟩
  · exact ⟨.refl _, .refl _, fun _ _ => rfl, Or.inl rfl⟩
  · have below := s.place_ne_nil d
    have free : s.disk.entry? (s.place d) ≠ some .directory := by
      rw [there]
      nofun
    refine ⟨⟨rfl, .erase below free⟩, ⟨rfl, .of_erase below⟩, fun d' other => ?_, Or.inr ?_⟩
    · rw [entry?_erase below, if_neg fun same => other (s.place_injective same)]
    · rw [entry?_erase below, if_pos rfl]

/-- A block to which the way is open can be removed. -/
theorem delete_of_locate {data : Bytes} (located : s.disk.locate (s.target d) = .ok (s.place d))
    (there : s.disk.entry? (s.place d) = some (.file data)) :
    ∃ s', s.delete (BlockPath.write features d) = .ok s' ∧ s'.disk.entry? (s.place d) = none := by
  have named : Path.names (s.target d) = (Path.names s.base ++ Path.names (BlockPath.stem d))
      ++ [String.ofList (BlockPath.fileName d)] := by
    rw [names_target, BlockPath.directoryNames_eq, List.append_assoc]
  have plain : String.ofList (BlockPath.fileName d) ≠ "."
      ∧ String.ofList (BlockPath.fileName d) ≠ ".." := by
    constructor <;>
    · intro same
      have chars := congrArg (fun n => n.toList.length) same
      simp [BlockPath.fileName, BlockPath.length_symbols] at chars
  refine ⟨{ s with disk := s.disk.erase (s.place d) }, ?_, ?_⟩
  · rw [delete, resolve_write]
    simp only [bind, Except.bind,
      remove_of_locate named plain (s.endsInSlash_target d) located there]
    rfl
  · rw [entry?_erase (s.place_ne_nil d), if_pos rfl]

/-! ## Clear bases -/

/-- A base that never climbs passes by nothing that is below its end. -/
theorem length_le_origin (level : ".." ∉ Path.names s.base) {l : Location}
    (way : OnTheWay (s.disk.start s.base) (Path.names s.base) l) : l.length ≤ s.origin.length := by
  obtain ⟨early, ⟨late, whole⟩, rfl⟩ := way
  have levelLate : ".." ∉ late := fun inside => level (whole ▸ List.mem_append_right _ inside)
  have below := length_le_follow (follow (s.disk.start s.base) early) levelLate
  rwa [← follow_append, whole] at below

/-- A base that never climbs keeps away from the places of blocks. -/
theorem clear_of_level (level : ".." ∉ Path.names s.base) : s.Clear := by
  intro d way
  have short := length_le_origin level way
  rw [length_place] at short
  omega

end PinnedStore.Directory
