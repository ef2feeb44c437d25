import PinnedStore.Proofs.Disk.Ending
import PinnedStore.Proofs.Disk.Making
import PinnedStore.Proofs.Storage.Place

/-!
# What lies below the base

A path of a store is looked at before the disk is: it must be relative, and none of its names may be
two dots.  So it leads to the base and from there only downwards.  A write touches one more place,
which it gets by cutting the *text* of the whole path at its last name, and it is here that the
check says too little.  A path like `.` or the empty one passes it and adds no name to those of the
base.  Then the last name is that of the base, and the file that is written first is one next to the
base, where there may be a file already.  After that the write fails, since the base can not be
replaced, and the file stays.

This is the only way out.  Every other change is strictly below the base, but for directories that
are made on the way to it; and a removal, which touches one place only, is always below the base.

* `Path.LeadsNowhere`: a path that adds no name.
* `Directory.Below`, `Directory.NextTo`: places below the base and the one place next to it.
* `Directory.Course`: how a write can end.
* `Directory.createFile_staged`: where the file lies that is written first.
* `Directory.changes_outside`: what writing and removing change that is not below the base.
-/

namespace PinnedStore

/-! ## Paths -/

namespace Path

variable {path : List Char}

/-- A path all of whose names are dots. -/
def LeadsNowhere (path : List Char) : Prop := ∀ name ∈ names path, name = "."

theorem filter_eq_nil_iff : (names path).filter (· ≠ ".") = [] ↔ LeadsNowhere path := by
  simp [LeadsNowhere]

/-- What is between two slashes is so too when other separators are turned into slashes. -/
theorem mem_splitOn_map {part : List Char} (plain : '\\' ∉ part) (h : part ∈ path.splitOn '/') :
    part ∈ (path.map fun c => if c = '\\' then '/' else c).splitOn '/' := by
  induction long : path.length using Nat.strong_induction_on generalizing path with
  | _ length ih =>
    subst long
    by_cases slash : '/' ∈ path
    · obtain ⟨before, after, rfl, -⟩ := List.eq_append_cons_of_mem slash
      rw [List.map_append, List.map_cons, if_neg (by decide), List.splitOn_append_cons_self,
        List.mem_append]
      rw [List.splitOn_append_cons_self, List.mem_append] at h
      exact h.imp (fun h => ih before.length (by simp) h rfl)
        fun h => ih after.length (by simp; omega) h rfl
    · rw [List.splitOn_eq_singleton slash, List.mem_singleton] at h
      subst h
      have same : part.map (fun c => if c = '\\' then '/' else c) = part := by
        refine (List.map_congr_left fun c inside => if_neg ?_).trans (List.map_id _)
        rintro rfl
        exact plain inside
      rw [same, List.splitOn_eq_singleton slash]
      exact List.mem_singleton_self part

/-- A path that passes the check is relative and does not climb. -/
theorem level_of_not_escapes (inside : Directory.escapes path = false) :
    isAbsolute path = false ∧ ".." ∉ names path := by
  rw [Directory.escapes, Bool.or_eq_false_iff] at inside
  refine ⟨inside.1, fun climbs => ?_⟩
  obtain ⟨chars, isPart, dots⟩ := List.mem_map.mp climbs
  have isDots : chars = ['.', '.'] := String.ofList_injective dots
  subst isDots
  have found := mem_splitOn_map (by decide) (List.mem_filter.mp isPart).1
  exact absurd (List.contains_iff_mem.mpr found) (by rw [inside.2]; exact Bool.false_ne_true)

/-- A relative path without names is empty. -/
theorem eq_nil_of_names_eq_nil (relative : isAbsolute path = false) (none : names path = []) :
    path = [] := by
  rcases path with _ | ⟨c, rest⟩
  · rfl
  · have chars := flatMap_names (c :: rest)
    rw [none, List.flatMap_nil, eq_comm, List.filter_eq_nil_iff] at chars
    have slash : c = '/' := by simpa using chars c List.mem_cons_self
    rw [slash] at relative
    cases relative

/-- A path that leads nowhere leads to a directory, wherever it starts. -/
theorem LeadsNowhere.join (nowhere : LeadsNowhere path) (relative : isAbsolute path = false)
    (base : List Char) : join base path = [] ∨ endsInSlash (join base path) = true ∨
      (names (join base path)).getLast? = some "." := by
  obtain ⟨front, whole, isFront, -⟩ := join_eq base relative
  rw [whole]
  rcases eq_or_ne (names path) [] with none | some
  · rw [eq_nil_of_names_eq_nil relative none, List.append_nil]
    rcases isFront with rfl | ⟨start, rfl⟩
    · exact Or.inl rfl
    · exact Or.inr (Or.inl (by simp [endsInSlash]))
  · refine Or.inr (Or.inr ?_)
    rw [names_isFront_append isFront, List.getLast?_append_of_ne_nil _ some,
      List.getLast?_eq_getLast_of_ne_nil some, nowhere _ (List.getLast_mem some)]

end Path

namespace Disk

variable {disk disk' : Disk} {path : List Char}

/-- Names that do not climb lead downwards. -/
theorem follow_of_level (l : Location) {names : List String} (level : ".." ∉ names) :
    follow l names = l ++ names.filter (· ≠ ".") := by
  induction names generalizing l with
  | nil => simp [follow]
  | cons name rest ih =>
    rw [List.mem_cons, not_or] at level
    rw [follow, if_neg (Ne.symm level.1), ih _ level.2, ih _ level.2]
    by_cases dot : name = "."
    · simp [dot]
    · simp [dot]

theorem follow_dots (l : Location) (dots : Nat) : follow l (List.replicate dots ".") = l := by
  rw [follow_of_level l (by simp [List.mem_replicate]), List.filter_eq_nil_iff.mpr (by simp),
    List.append_nil]

/-- A new entry has the last name of the path. -/
theorem getLast?_of_locateParent {parent : Location} {name : String}
    (h : disk.locateParent path = .ok (parent, some name)) :
    path ≠ [] ∧ (Path.names path).getLast? = some name ∧ name ≠ "." ∧ name ≠ ".." := by
  obtain ⟨_, fine, h⟩ := ok_of_bind h
  obtain ⟨reached, -, h⟩ := ok_of_bind h
  obtain ⟨_, -, h⟩ := ok_of_bind h
  refine ⟨(check_eq_ok.mp fine).1, ?_⟩
  rcases last : (Path.names path).getLast? with _ | found
  · rw [last] at h
    cases h
  · rw [last] at h
    dsimp only at h
    split at h
    · cases h
    · next notDots =>
      split at h
      · cases h
      · cases h
        exact ⟨rfl, by simpa [not_or] using notDots⟩

/-- Making the directories for a file adds nothing but directories on the way to it. -/
theorem onlyMakes_makeDirectories_parent (disk : Disk) (path : List Char) :
    OnlyMakes (OnTheWay (disk.start path) (Path.names path)) disk
      (disk.makeDirectories ((Path.parent? path).getD path)).2 := by
  rcases isParent : Path.parent? path with _ | parent
  · exact onlyMakes_makeDirectories disk path
  · refine (onlyMakes_makeDirectories disk parent).mono ?_
    rintro l ⟨early, isEarly, leads⟩
    refine ⟨early, isEarly.trans ?_, leads.trans (by rw [start_parent isParent])⟩
    exact (Path.names_parent_prefix isParent).trans (Path.names_before_prefix path)

/-- The path can be that of a file. -/
def NamesEntry (disk : Disk) (path : List Char) : Prop :=
  Path.endsInSlash path = false ∧ ∃ parent name, disk.locateParent path = .ok (parent, some name)

theorem namesEntry_of_createFile {content : Bytes} (h : disk.createFile path content = .ok disk') :
    disk.NamesEntry path := by
  obtain ⟨⟨parent, last⟩, located, h⟩ := ok_of_bind h
  cases last with
  | none => cases h
  | some name =>
    dsimp only at h
    split at h
    · cases h
    · next noSlash => exact ⟨eq_false_of_ne_true noSlash, parent, name, located⟩

theorem namesEntry_of_rename {source : List Char} (h : disk.rename source path = .ok disk') :
    disk.NamesEntry path := by
  obtain ⟨⟨parent, last⟩, -, h⟩ := ok_of_bind h
  obtain ⟨⟨parent', last'⟩, located, h⟩ := ok_of_bind h
  cases last with
  | none => cases h
  | some name =>
    cases last' with
    | none => cases h
    | some name' =>
      dsimp only at h
      split at h
      · cases h
      · split at h
        · cases h
        · next noSlash => exact ⟨eq_false_of_ne_true noSlash, parent', name', located⟩

theorem namesEntry_of_remove (h : disk.remove path = .ok disk') : disk.NamesEntry path := by
  obtain ⟨⟨parent, last⟩, located, h⟩ := ok_of_bind h
  cases last with
  | none => cases h
  | some name =>
    dsimp only at h
    split at h
    · cases h
    · cases h
    · split at h
      · cases h
      · next noSlash => exact ⟨eq_false_of_ne_true noSlash, parent, name, located⟩

end Disk

namespace Directory

open Disk

variable {s s' : Directory} {path : String} {target : List Char} {content : Bytes} {l : Location}

/-! ## Where paths lead -/

/-- Strictly below the base. -/
def Below (s : Directory) (l : Location) : Prop := ∃ names, names ≠ [] ∧ l = s.origin ++ names

/-- Next to the base, by the name of the base with the ending of files that are being written. -/
def NextTo (s : Directory) (l : Location) : Prop :=
  ∃ above name, s.origin = above ++ [name] ∧
    l = above ++ [String.ofList ((Path.splitExtension name.toList).1 ++ '.' :: staging)]

/-- A path that passes the check, and the path on the disk. -/
structure Resolves (s : Directory) (path : String) (target : List Char) : Prop where
  relative : Path.isAbsolute path.toList = false
  level : ".." ∉ Path.names path.toList
  target : target = Path.join s.base path.toList

theorem resolves_of_resolve (h : s.resolve path = .ok target) : s.Resolves path target := by
  rw [resolve] at h
  split at h
  · cases h
  · next inside =>
    cases h
    obtain ⟨relative, level⟩ := Path.level_of_not_escapes (eq_false_of_ne_true inside)
    exact ⟨relative, level, rfl⟩

namespace Resolves

variable (resolves : s.Resolves path target)

include resolves

theorem names : Path.names target = Path.names s.base ++ Path.names path.toList := by
  obtain ⟨front, whole, isFront, named⟩ := Path.join_eq s.base resolves.relative
  rw [resolves.target, whole, Path.names_isFront_append isFront, named]

theorem start : s.disk.start target = s.disk.start s.base := by
  rw [Disk.start, Disk.start, resolves.target, Path.isAbsolute_join s.base resolves.relative]

/-- Where the path leads: to the base, and on along its names. -/
theorem follow : follow (s.disk.start s.base) (Path.names target)
    = s.origin ++ (Path.names path.toList).filter (· ≠ ".") := by
  rw [resolves.names, follow_append, follow_of_level _ resolves.level]
  rfl

/-- A path that leads nowhere is not that of a file. -/
theorem not_namesEntry (nowhere : Path.LeadsNowhere path.toList) (disk : Disk) :
    ¬ disk.NamesEntry target := by
  rintro ⟨noSlash, parent, name, located⟩
  obtain ⟨nonempty, last, notDot, -⟩ := getLast?_of_locateParent located
  have cases := nowhere.join resolves.relative s.base
  rw [← resolves.target] at cases
  rcases cases with empty | slash | dot
  · exact nonempty empty
  · cases noSlash.symm.trans slash
  · exact notDot (Option.some.inj (last.symm.trans dot))

/-- The path of a file leads below the base. -/
theorem below_of_namesEntry {disk : Disk} (names : disk.NamesEntry target) :
    s.Below (Disk.follow (s.disk.start s.base) (Path.names target)) := by
  refine ⟨_, fun none => ?_, resolves.follow⟩
  exact resolves.not_namesEntry (Path.filter_eq_nil_iff.mp none) disk names

/-- What is on the way is on the way to the base, or below it. -/
theorem onTheWay (way : OnTheWay (s.disk.start s.base) (Path.names target) l) :
    OnTheWay (s.disk.start s.base) (Path.names s.base) l ∨ s.Below l := by
  obtain ⟨early, isEarly, rfl⟩ := way
  rw [resolves.names] at isEarly
  rcases List.prefix_or_prefix_of_prefix isEarly (List.prefix_append _ _) with above | ⟨below, rfl⟩
  · exact Or.inl ⟨early, above, rfl⟩
  · have isBelow := (List.prefix_append_right_inj _).mp isEarly
    rw [follow_append, follow_of_level _ fun climbs => resolves.level (isBelow.subset climbs)]
    rcases eq_or_ne (below.filter (· ≠ ".")) [] with none | some
    · rw [none, List.append_nil]
      exact Or.inl (onTheWay_end _ _)
    · exact Or.inr ⟨_, some, rfl⟩

end Resolves

/-! ## The course of a write -/

/-- The disk once the directories for a file at a path have been made. -/
def readied (s : Directory) (target : List Char) : Disk :=
  (s.disk.makeDirectories ((Path.parent? target).getD target)).2

/-- How a write can end: the path is refused, or it gets no further than to the directories, to the
file that is written first, or to the end. -/
inductive Course (s : Directory) (path : String) (content : Bytes) :
    Except Failure Unit → Disk → Prop
  | refused (f : Failure) : Course s path content (.error f) s.disk
  | made {target : List Char} (f : Failure) (resolves : s.Resolves path target) :
    Course s path content (.error f) (s.readied target)
  | staged {target : List Char} {staged : Disk} (f : Failure) (resolves : s.Resolves path target)
    (isStaged : (s.readied target).createFile (Path.withExtension target staging) content
      = .ok staged) : Course s path content (.error f) staged
  | placed {target : List Char} {staged renamed : Disk} (resolves : s.Resolves path target)
    (isStaged : (s.readied target).createFile (Path.withExtension target staging) content
      = .ok staged)
    (isRenamed : staged.rename (Path.withExtension target staging) target = .ok renamed) :
    Course s path content (.ok ()) renamed

theorem course_of_put {result : Except Failure Unit} (h : s.put path content = (result, s')) :
    s'.base = s.base ∧ Course s path content result s'.disk := by
  rw [put] at h
  rcases isResolved : s.resolve path with f | target
  · rw [isResolved] at h
    cases h
    exact ⟨rfl, .refused f⟩
  have resolves := resolves_of_resolve isResolved
  rw [isResolved] at h
  dsimp only at h
  rcases step : s.disk.makeDirectories ((Path.parent? target).getD target) with ⟨outcome, made⟩
  have readied : s.readied target = made := by rw [Directory.readied, step]
  rw [step] at h
  rcases outcome with e | ⟨⟩
  · cases h
    exact ⟨rfl, readied ▸ .made _ resolves⟩
  dsimp only at h
  rcases isStaged : made.createFile (Path.withExtension target staging) content with e | staged
  · rw [isStaged] at h
    cases h
    exact ⟨rfl, readied ▸ .made _ resolves⟩
  rw [isStaged] at h
  dsimp only at h
  rcases isRenamed : staged.rename (Path.withExtension target staging) target with e | renamed
  · rw [isRenamed] at h
    cases h
    exact ⟨rfl, .staged _ resolves (readied ▸ isStaged)⟩
  · rw [isRenamed] at h
    cases h
    exact ⟨rfl, .placed resolves (readied ▸ isStaged) isRenamed⟩

/-- Making the directories for a file adds nothing but directories, on the way to the base or below
it. -/
theorem Resolves.onlyMakes (resolves : s.Resolves path target) :
    OnlyMakes (fun l => OnTheWay (s.disk.start s.base) (Path.names s.base) l ∨ s.Below l) s.disk
      (s.readied target) := by
  refine (onlyMakes_makeDirectories_parent s.disk target).mono fun l way => ?_
  rw [resolves.start] at way
  exact resolves.onTheWay way

/-! ## The file that is written first -/

/-- Where the file lies that is written before it takes the place of the target: below the base, or
next to it if the path leads nowhere. -/
theorem createFile_staged {staged : Disk} (resolves : s.Resolves path target)
    (h : (s.readied target).createFile (Path.withExtension target staging) content = .ok staged) :
    ∃ l, l = follow (s.disk.start (Path.withExtension target staging))
          (Path.names (Path.withExtension target staging)) ∧
      l ≠ [] ∧ Disk.entry? (s.readied target) l ≠ some .directory ∧
      staged = (s.readied target).set l (.file content) ∧
      (s.Below l ∨ Path.LeadsNowhere path.toList ∧ s.NextTo l) := by
  obtain ⟨l, leads, below, free, rfl⟩ := createFile_spec h
  rw [resolves.onlyMakes.keepsDirectories.start] at leads
  refine ⟨l, leads, below, free, rfl, ?_⟩
  have entry := namesEntry_of_createFile h
  rcases Path.names_withExtension target (by decide : '/' ∉ staging) with
    nameless | ⟨above, name, dots, last, named, isName, staged, absolute, kind⟩
  · rw [nameless] at leads entry
    rw [resolves.start] at leads
    exact Or.inl (leads ▸ resolves.below_of_namesEntry entry)
  have start : s.disk.start (Path.withExtension target staging) = s.disk.start s.base := by
    rw [← resolves.start, Disk.start, Disk.start, absolute]
  -- The file has a name, so its path has not been cut down to two dots.
  obtain ⟨-, parent, found, located⟩ := entry
  obtain ⟨-, isLast, notDot, notDots⟩ := getLast?_of_locateParent located
  rw [staged, List.getLast?_concat, Option.some_inj] at isLast
  have ending : last = (Path.splitExtension name).1 ++ '.' :: staging := by
    refine kind.resolve_right fun isDots => notDots ?_
    rw [← isLast, isDots]
  have place : l = follow (s.disk.start s.base) above ++ [String.ofList last] := by
    rw [leads, start, staged, isLast, follow_concat _ _ notDot notDots]
  have whole : follow (s.disk.start s.base) above ++ [String.ofList name]
      = s.origin ++ (Path.names path.toList).filter (· ≠ ".") := by
    rw [← resolves.follow, named, follow_append, follow,
      if_neg fun same => isName.notDot (String.ofList_injective same),
      if_neg fun same => isName.notDots (String.ofList_injective same), follow_dots]
  rcases List.eq_nil_or_concat ((Path.names path.toList).filter (· ≠ ".")) with
    none | ⟨init, final, parted⟩
  · rw [none, List.append_nil] at whole
    refine Or.inr ⟨Path.filter_eq_nil_iff.mp none, _, _, whole.symm, ?_⟩
    rw [place, ending, String.toList_ofList]
  · rw [parted, List.concat_eq_append, ← List.append_assoc] at whole
    refine Or.inl ⟨init ++ [String.ofList last], by simp, ?_⟩
    rw [place, (List.append_inj' whole rfl).1, List.append_assoc]

/-! ## Writing and removing -/

/-- The directories for a file are made on the way to the base, as far as they are not below it. -/
theorem Resolves.readied_outside (resolves : s.Resolves path target) (outside : ¬ s.Below l) :
    Disk.entry? (s.readied target) l = s.disk.entry? l ∨ (s.disk.entry? l = none ∧
      Disk.entry? (s.readied target) l = some .directory ∧
      OnTheWay (s.disk.start s.base) (Path.names s.base) l) :=
  (resolves.onlyMakes.entry? l).imp_right fun ⟨absent, there, way⟩ =>
    ⟨absent, there, way.resolve_right outside⟩

/-- A write that succeeds has changed nothing outside but what making the directories has. -/
theorem placed_outside {staged renamed : Disk} (resolves : s.Resolves path target)
    (isStaged : (s.readied target).createFile (Path.withExtension target staging) content
      = .ok staged)
    (isRenamed : staged.rename (Path.withExtension target staging) target = .ok renamed)
    (outside : ¬ s.Below l) : renamed.entry? l = Disk.entry? (s.readied target) l := by
  obtain ⟨beside, leads, below, -, rfl, kind⟩ := createFile_staged resolves isStaged
  have start : ∀ path, Disk.start ((s.readied target).set beside (.file content)) path
      = s.disk.start path := fun path => resolves.onlyMakes.keepsDirectories.start path
  have entry := namesEntry_of_rename isRenamed
  have targetBelow := resolves.below_of_namesEntry entry
  have besideBelow : s.Below beside :=
    kind.resolve_right fun nowhere => resolves.not_namesEntry nowhere.1 _ entry
  obtain ⟨old, new, e, isOld, isNew, -, someNew, -, -, shape⟩ := rename_spec isRenamed
  rw [start, ← leads] at isOld
  rw [start, resolves.start] at isNew
  subst isOld
  rw [← isNew] at targetBelow
  have apart : l ≠ old := fun same => outside (same ▸ besideBelow)
  have apart' : l ≠ new := fun same => outside (same ▸ targetBelow)
  rcases shape with ⟨-, rfl⟩ | ⟨-, -, rfl⟩
  · rw [entry?_set below, if_neg apart]
  · rw [entry?_set someNew, if_neg apart', entry?_erase below, if_neg apart, entry?_set below,
      if_neg apart]

/-- What a write changes that is not below the base. -/
theorem put_outside {result : Except Failure Unit} (h : s.put path content = (result, s'))
    (outside : ¬ s.Below l) :
    s'.disk.entry? l = s.disk.entry? l ∨
    (s.disk.entry? l = none ∧ s'.disk.entry? l = some .directory ∧
      OnTheWay (s.disk.start s.base) (Path.names s.base) l) ∨
    (Path.LeadsNowhere path.toList ∧ s.NextTo l ∧ (∃ f, result = .error f) ∧
      s'.disk.entry? l = some (.file content)) := by
  obtain ⟨-, course⟩ := course_of_put h
  generalize s'.disk = disk at course
  cases course with
  | refused f => exact Or.inl rfl
  | made f resolves => exact (resolves.readied_outside outside).imp_right Or.inl
  | staged f resolves isStaged =>
    obtain ⟨beside, -, below, -, rfl, kind⟩ := createFile_staged resolves isStaged
    rw [entry?_set below]
    split
    · next same =>
      obtain ⟨nowhere, next⟩ := kind.resolve_left (same ▸ outside)
      exact Or.inr (Or.inr ⟨nowhere, same ▸ next, ⟨f, rfl⟩, rfl⟩)
    · exact (resolves.readied_outside outside).imp_right Or.inl
  | placed resolves isStaged isRenamed =>
    rw [placed_outside resolves isStaged isRenamed outside]
    exact (resolves.readied_outside outside).imp_right Or.inl

/-- A removal changes nothing that is not below the base. -/
theorem delete_outside (h : s.delete path = .ok s') (outside : ¬ s.Below l) :
    s'.disk.entry? l = s.disk.entry? l := by
  obtain ⟨target, isResolved, h⟩ := ok_of_bind h
  have resolves := resolves_of_resolve isResolved
  rcases removed : s.disk.remove target with e | disk
  · rw [removed] at h
    dsimp only at h
    split at h
    · cases h
      rfl
    · cases h
  · rw [removed] at h
    cases h
    have isBelow := resolves.below_of_namesEntry (namesEntry_of_remove removed)
    obtain ⟨location, _, leads, below, -, rfl⟩ := remove_spec removed
    rw [resolves.start] at leads
    rw [← leads] at isBelow
    have apart : l ≠ location := fun same => outside (same ▸ isBelow)
    exact (entry?_erase below l).trans (if_neg apart)

/-- What a write or a removal changes that is not below the base, whatever the path, the content and
the disk are.  A removal changes nothing.  A write makes directories on the way to the base; and
with a path that leads nowhere it leaves its content in the file next to the base, in place of what
was there, and then fails. -/
theorem changes_outside (s : Directory) (path : String) (content : Bytes)
    (outside : ¬ s.Below l) :
    (∀ result s', s.put path content = (result, s') →
      s'.disk.entry? l = s.disk.entry? l ∨
      (s.disk.entry? l = none ∧ s'.disk.entry? l = some .directory ∧
        OnTheWay (s.disk.start s.base) (Path.names s.base) l) ∨
      (Path.LeadsNowhere path.toList ∧ s.NextTo l ∧ (∃ f, result = .error f) ∧
        s'.disk.entry? l = some (.file content))) ∧
    ∀ s', s.delete path = .ok s' → s'.disk.entry? l = s.disk.entry? l :=
  ⟨fun _ _ h => put_outside h outside, fun _ h => delete_outside h outside⟩

/-! ### A file next to the base -/

/-- A store that is empty, with a file next to its base. -/
def neighboured : Directory :=
  ⟨"blocks".toList, (Disk.empty.set ["blocks"] .directory).set ["blocks.tmp"] (.file [1])⟩

theorem not_below_neighboured : ¬ neighboured.Below ["blocks.tmp"] := by
  rintro ⟨names, -, same⟩
  exact absurd (List.cons.inj same).1 (by decide)

theorem put_neighboured :
    neighboured.disk.entry? ["blocks.tmp"] = some (.file [1]) ∧
    Disk.entry? (neighboured.put "" [2]).2.disk ["blocks.tmp"] = some (.file [2]) := by
  decide +kernel

/-- The empty path passes the check, and a write to it replaces a file that is not below the
base. -/
theorem not_confined : ∃ l, ¬ neighboured.Below l ∧
    neighboured.disk.entry? l = some (.file [1]) ∧
    Disk.entry? (neighboured.put "" [2]).2.disk l = some (.file [2]) :=
  ⟨["blocks.tmp"], not_below_neighboured, put_neighboured⟩

/-- This is the one case in which a file outside is written: the write has failed, and the file is
the one next to the base. -/
theorem changes_outside_neighboured :
    neighboured.NextTo ["blocks.tmp"] ∧ ∃ f, (neighboured.put "" [2]).1 = .error f := by
  obtain ⟨before, after⟩ := put_neighboured
  rcases (changes_outside neighboured "" [2] not_below_neighboured).1 _ _ rfl with
    same | ⟨-, there, -⟩ | ⟨-, next, failed, -⟩
  · cases before.symm.trans (same.symm.trans after)
  · cases after.symm.trans there
  · exact ⟨next, failed⟩

end Directory

end PinnedStore
