import PinnedStore.Proofs.Storage.Below
import PinnedStore.Proofs.Storage.Foreign

/-!
# Objects of a directory

The object at a path is kept in the file at this path, and a write of it goes first to a file next
to that one, of the same name but for the ending.  Nothing keeps this file apart from the objects:
its path is the path of an object too, and a store may have one there.  Such an object is
overwritten by the write, and gone when the file has been given its own name.  Nor is it listed as
long as it is there, since a file with that ending is taken for one that is still being written.

Apart from this a write changes no other object.  So what can be read at a path after a run of calls
is what has been written there last, unless a later write has gone through the file at this path;
and it is listed, once, unless its path has the ending of files that are being written.

* `Path.Plain`: a path whose names could all be names of files.
* `Directory.object?`: the object at a path, and `Directory.staged` the path of the file written
  first.
* `Directory.object?_put`, `object?_delete`: what a call does to the objects at all paths.
* `Directory.object?_performAll`: what a run of calls does to the objects at the paths it does not
  name.
* `Directory.objects_kept`: what can be read and is listed after a run of calls.
-/

namespace PinnedStore

/-! ## Plain paths -/

namespace Path

variable {path path' front last ending : List Char}

instance : DecidablePred IsName := fun name =>
  decidable_of_iff (name ≠ [] ∧ '/' ∉ name ∧ name ≠ ['.'] ∧ name ≠ ['.', '.'])
    ⟨fun h => ⟨h.1, h.2.1, h.2.2.1, h.2.2.2⟩, fun h => ⟨h.nonempty, h.noSlash, h.notDot, h.notDots⟩⟩

/-- A path all of whose names could be names of files, with one slash between each two of them. -/
def Plain (path : List Char) : Prop := ∀ part ∈ path.splitOn '/', IsName part

instance : DecidablePred Plain := fun path =>
  inferInstanceAs (Decidable (∀ part ∈ path.splitOn '/', IsName part))

/-- Every path can be cut at its last slash. -/
theorem exists_front (path : List Char) :
    ∃ front last, path = front ++ last ∧ IsFront front ∧ '/' ∉ last := by
  by_cases slash : '/' ∈ path
  · obtain ⟨backwards, before, shape, noSlash⟩ :=
      List.eq_append_cons_of_mem (List.mem_reverse.mpr slash)
    refine ⟨before.reverse ++ ['/'], backwards.reverse, ?_, Or.inr ⟨_, rfl⟩, fun inside =>
      noSlash (List.mem_reverse.mp inside)⟩
    rw [← path.reverse_reverse, shape]
    simp
  · exact ⟨[], path, rfl, Or.inl rfl, slash⟩

theorem splitOn_front (isFront : IsFront front) (noSlash : '/' ∉ last) :
    (front ++ last).splitOn '/' = (front.splitOn '/').dropLast ++ [last] := by
  rcases isFront with rfl | ⟨start, rfl⟩
  · rw [List.nil_append, List.splitOn_eq_singleton noSlash]
    rfl
  · rw [List.append_assoc, List.singleton_append, List.splitOn_append_cons_self,
      List.splitOn_append_cons_self, List.splitOn_eq_singleton noSlash, List.splitOn_nil,
      List.dropLast_concat]

namespace Plain

variable (plain : Plain path)

include plain

theorem isName_of_mem {name : String} (h : name ∈ names path) : IsName name.toList := by
  obtain ⟨chars, inside, rfl⟩ := List.mem_map.mp h
  rw [String.toList_ofList]
  exact plain chars (List.mem_filter.mp inside).1

theorem level : ".." ∉ names path := fun climbs => (plain.isName_of_mem climbs).notDots rfl

theorem relative : isAbsolute path = false := by
  rcases path with _ | ⟨c, rest⟩
  · rfl
  · rcases eq_or_ne c '/' with rfl | other
    · have parts : ('/' :: rest).splitOn '/' = [] :: rest.splitOn '/' := by
        rw [List.splitOn_cons_eq_if_modifyHead, if_pos (by simp)]
      exact absurd rfl (plain [] (parts ▸ List.mem_cons_self)).nonempty
    · simpa [isAbsolute] using other

theorem names_ne_nil : names path ≠ [] := by
  obtain ⟨first, rest, parts⟩ := List.exists_cons_of_ne_nil (List.splitOn_ne_nil '/' path)
  have isName := plain first (parts ▸ List.mem_cons_self)
  simp [names, parts, isName.nonempty]

theorem filter_names : (names path).filter (· ≠ ".") = names path := by
  rw [List.filter_eq_self]
  intro name inside
  rw [decide_eq_true_iff]
  rintro rfl
  exact (plain.isName_of_mem inside).notDot rfl

theorem intercalate : "/".intercalate (names path) = String.ofList path :=
  intercalate_names fun part inside => (plain part inside).nonempty

theorem names_inj (plain' : Plain path') : names path = names path' ↔ path = path' := by
  refine ⟨fun same => ?_, fun same => same ▸ rfl⟩
  rw [← String.ofList_inj, ← plain.intercalate, same, plain'.intercalate]

/-- Another ending makes no difference to what stands before a path, and it makes a plain path of
it, if it leaves the path a name at all. -/
theorem withExtension (someEnding : ending ≠ []) (slashless : '/' ∉ ending) :
    (∀ base, IsFront base →
      Path.withExtension (base ++ path) ending = base ++ Path.withExtension path ending) ∧
    (Plain (Path.withExtension path ending) ∨
      (names (Path.withExtension path ending)).getLast? = some "..") := by
  obtain ⟨front, name, rfl, isFront, noSlash⟩ := exists_front path
  have parts := splitOn_front isFront noSlash
  have isName : IsName name :=
    plain name (parts ▸ List.mem_append_right _ (List.mem_singleton_self _))
  obtain ⟨last, kind, shape⟩ := withExtension_of_isName isName .nil ending
  simp only [List.reverse_nil, List.append_nil] at shape
  refine ⟨fun base isBase => ?_, ?_⟩
  · have isFront' : IsFront (base ++ front) := by
      rcases isFront with rfl | more
      · rwa [List.append_nil]
      · exact IsFront.append more
    rw [← List.append_assoc, shape _ isFront', shape _ isFront, List.append_assoc]
  · rw [shape _ isFront]
    rcases kind with rfl | ⟨-, rfl⟩
    · have isName' : IsName ((splitExtension name).1 ++ '.' :: ending) :=
        isName_append (stem_ne_nil isName) (slash_notMem_stem isName.noSlash) someEnding slashless
      refine Or.inl fun part inside => ?_
      rw [splitOn_front isFront isName'.noSlash, List.mem_append, List.mem_singleton] at inside
      rcases inside with early | rfl
      · exact plain part (parts ▸ List.mem_append_left _ early)
      · exact isName'
    · have dots : names ['.', '.'] = [".."] := names_of_plain (by simp) (by decide)
      refine Or.inr ?_
      rw [names_isFront_append isFront, dots, List.getLast?_concat]

/-- Another ending, before or after something has been put before the path. -/
theorem withExtension_join (plain' : Plain (Path.withExtension path ending)) (base : List Char)
    (someEnding : ending ≠ []) (slashless : '/' ∉ ending) :
    Path.withExtension (join base path) ending = join base (Path.withExtension path ending) := by
  have shift := (plain.withExtension someEnding slashless).1
  unfold join
  rw [plain.relative, plain'.relative, Bool.false_or]
  split
  · rfl
  · split
    · next ends =>
      obtain ⟨start, rfl⟩ := List.getLast?_eq_some_iff.mp (by simpa using ends)
      exact shift _ (Or.inr ⟨start, rfl⟩)
    · have shape := shift (base ++ ['/']) (Or.inr ⟨base, rfl⟩)
      simpa using shape

end Plain

end Path

namespace Directory

open Disk

variable {s s' : Directory} {path other : String} {target : List Char} {content : Bytes}

/-! ## Objects -/

/-- Where the object at a path lies. -/
def location (s : Directory) (path : String) : Location := s.origin ++ Path.names path.toList

/-- The object at a path. -/
def object? (s : Directory) (path : String) : Option Bytes :=
  match s.disk.entry? (s.location path) with
  | some (.file content) => some content
  | _ => none

/-- The path of the file that is written before the object at a path. -/
def staged (path : String) : String := String.ofList (Path.withExtension path.toList staging)

theorem object?_eq_some :
    s.object? path = some content ↔ s.disk.entry? (s.location path) = some (.file content) := by
  rw [object?]
  split
  · next found there => simp [there]
  · next noFile => exact iff_of_false (by simp) (noFile content)

theorem location_ne_nil (plain : Path.Plain path.toList) (s : Directory) :
    s.location path ≠ [] := by
  rw [location, Ne, List.append_eq_nil_iff, not_and]
  exact fun _ => plain.names_ne_nil

theorem location_inj (plain : Path.Plain path.toList) (plain' : Path.Plain other.toList) :
    s.location path = s.location other ↔ path = other := by
  rw [location, location, List.append_cancel_left_eq, plain.names_inj plain', String.toList_inj]

theorem Resolves.follow_plain (resolves : s.Resolves path target) (plain : Path.Plain path.toList) :
    Disk.follow (s.disk.start s.base) (Path.names target) = s.location path := by
  rw [resolves.follow, plain.filter_names, location]

/-! ## A write that succeeds -/

/-- The file that is written first is at a plain path too. -/
theorem plain_staged (plain : Path.Plain path.toList)
    (resolves : s.Resolves path target) {disk : Disk}
    (entry : disk.NamesEntry (Path.withExtension target staging)) :
    Path.Plain (staged path).toList ∧
      s.Resolves (staged path) (Path.withExtension target staging) := by
  rw [staged, String.toList_ofList]
  obtain ⟨front, whole, isFront, -⟩ := Path.join_eq s.base resolves.relative
  obtain ⟨shift, kind⟩ := plain.withExtension (by decide : staging ≠ []) (by decide)
  have shape : Path.withExtension target staging
      = front ++ Path.withExtension path.toList staging := by
    rw [resolves.target, whole, shift front isFront]
  have plain' : Path.Plain (Path.withExtension path.toList staging) := by
    refine kind.resolve_right fun dots => ?_
    obtain ⟨-, parent, name, located⟩ := entry
    obtain ⟨-, last, -, notDots⟩ := getLast?_of_locateParent located
    rw [shape, Path.names_isFront_append isFront, List.getLast?_append, dots] at last
    exact notDots (Option.some.inj last).symm
  refine ⟨plain', ?_⟩
  constructor
  · rw [String.toList_ofList]
    exact plain'.relative
  · rw [String.toList_ofList]
    exact plain'.level
  · rw [String.toList_ofList, resolves.target]
    exact (plain.withExtension_join plain' s.base (by decide) (by decide))

/-- What a write that succeeds has done to a disk on which the directories had been made. -/
structure Placed (s : Directory) (path : String) (content : Bytes) (made placed : Disk) : Prop where
  plain : Path.Plain (staged path).toList
  keeps : KeepsDirectories made placed
  entry? : ∀ l, placed.entry? l = if l = s.location path then some (.file content)
    else if l = s.location (staged path) then none else made.entry? l
  locate : placed.locate (Path.join s.base path.toList) = .ok (s.location path)

theorem placed_of_rename {stage placed : Disk} (plain : Path.Plain path.toList)
    (resolves : s.Resolves path target)
    (isStaged : (s.readied target).createFile (Path.withExtension target staging) content
      = .ok stage)
    (isRenamed : stage.rename (Path.withExtension target staging) target = .ok placed) :
    Placed s path content (s.readied target) placed := by
  obtain ⟨plain', resolves'⟩ := plain_staged plain resolves (namesEntry_of_createFile isStaged)
  obtain ⟨beside, leads, below, free, rfl, -⟩ := createFile_staged resolves isStaged
  rw [resolves'.start, resolves'.follow_plain plain'] at leads
  subst leads
  have kept : KeepsDirectories (s.readied target)
      ((s.readied target).set (s.location (staged path)) (.file content)) := .set below free _
  have start : ∀ x, Disk.start ((s.readied target).set (s.location (staged path)) (.file content)) x
      = s.disk.start x := fun x =>
    (kept.start x).trans (resolves.onlyMakes.keepsDirectories.start x)
  obtain ⟨old, new, e, isOld, isNew, -, someNew, moves, located, shape⟩ := rename_spec isRenamed
  rw [start, resolves'.start, resolves'.follow_plain plain'] at isOld
  rw [start, resolves.start, resolves.follow_plain plain] at isNew
  subst isOld isNew
  rw [entry?_set below, if_pos rfl] at moves
  cases moves
  -- A path with that ending is itself that of the file written first, and then nothing is moved.
  rcases shape with ⟨same, rfl⟩ | ⟨-, free', rfl⟩
  · refine ⟨plain', kept, fun l => ?_, resolves.target ▸ located⟩
    rw [entry?_set below, ← same]
    split <;> rfl
  · have removed : KeepsDirectories
        ((s.readied target).set (s.location (staged path)) (.file content))
        (((s.readied target).set (s.location (staged path)) (.file content)).erase
          (s.location (staged path))) := by
      refine .erase below ?_
      rw [entry?_set below, if_pos rfl]
      nofun
    have moved := removed.trans (.set someNew (e := .file content) ?_)
    · refine ⟨plain', kept.trans moved, fun l => ?_, resolves.target ▸ moved.locate located⟩
      rw [entry?_set someNew, entry?_erase below, entry?_set below]
      split
      · rfl
      · split <;> rfl
    · rw [entry?_erase below]
      split
      · nofun
      · exact free'

theorem Later.location (later : Later s s') (path : String) :
    s'.location path = s.location path := by
  rw [Directory.location, Directory.location, later.origin]

/-- What a write that succeeds has done. -/
theorem put_done (plain : Path.Plain path.toList) (h : s.put path content = (.ok (), s')) :
    ∃ target, s.Resolves path target ∧ Later s s' ∧
      Placed s path content (s.readied target) s'.disk := by
  obtain ⟨base, course⟩ := course_of_put h
  generalize isDisk : s'.disk = disk at course
  cases course with
  | @placed target stage _ resolves isStaged isRenamed =>
    have placed := placed_of_rename plain resolves isStaged isRenamed
    subst isDisk
    exact ⟨target, resolves, ⟨base, resolves.onlyMakes.keepsDirectories.trans placed.keeps⟩, placed⟩

/-- What a write that succeeds does to the objects: it is there, and what was at the path of the
file written first is not there any more. -/
theorem object?_put (plain : Path.Plain path.toList) (h : s.put path content = (.ok (), s'))
    (plain' : Path.Plain other.toList) : s'.object? other = if other = path then some content
      else if other = staged path then none else s.object? other := by
  obtain ⟨target, resolves, later, placed⟩ := put_done plain h
  refine Option.ext fun found => ?_
  rw [object?_eq_some, later.location, placed.entry?]
  simp only [location_inj plain' plain, location_inj plain' placed.plain]
  split
  · simp
  · split
    · simp
    · rw [object?_eq_some, resolves.onlyMakes.file_iff]

/-! ## A removal -/

/-- What a removal that succeeds has done. -/
theorem delete_done (plain : Path.Plain path.toList) (h : s.delete path = .ok s') :
    s' = s ∨ ∃ data, s.disk.entry? (s.location path) = some (.file data) ∧
      s' = { s with disk := s.disk.erase (s.location path) } := by
  obtain ⟨target, isResolved, h⟩ := ok_of_bind h
  have resolves := resolves_of_resolve isResolved
  rcases removed : s.disk.remove target with e | disk
  · rw [removed] at h
    dsimp only at h
    split at h
    · cases h
      exact Or.inl rfl
    · cases h
  · rw [removed] at h
    cases h
    obtain ⟨l, data, leads, -, there, rfl⟩ := remove_spec removed
    rw [resolves.start, resolves.follow_plain plain] at leads
    subst leads
    exact Or.inr ⟨data, there, rfl⟩

theorem later_delete (plain : Path.Plain path.toList) (h : s.delete path = .ok s') :
    Later s s' := by
  rcases delete_done plain h with rfl | ⟨data, there, rfl⟩
  · exact .refl _
  · exact ⟨rfl, .erase (location_ne_nil plain s) (by rw [there]; nofun)⟩

/-- A removal that succeeds does nothing to other objects. -/
theorem object?_delete (plain : Path.Plain path.toList) (h : s.delete path = .ok s')
    (plain' : Path.Plain other.toList) (apart : path ≠ other) :
    s'.object? other = s.object? other := by
  rcases delete_done plain h with rfl | ⟨data, -, rfl⟩
  · rfl
  · refine Option.ext fun found => ?_
    rw [object?_eq_some, object?_eq_some]
    change Disk.entry? (s.disk.erase _) (s.location other) = _ ↔ _
    rw [entry?_erase (location_ne_nil plain s),
      if_neg fun same => apart ((location_inj plain' plain).mp same).symm]

/-! ## Runs of calls -/

/-- A call that changes objects. -/
inductive Call where
  | put (path : String) (content : Bytes)
  | delete (path : String)

namespace Call

/-- The path of the object a call is about. -/
def object : Call → String
  | put path _ => path
  | delete path => path

/-- Whether the call writes to the file at this path before it gives it another name. -/
def stages (other : String) : Call → Bool
  | put path _ => staged path == other
  | delete _ => false

/-- Makes a call; it has to succeed. -/
def perform (s : Directory) : Call → Except Failure Directory
  | put path content =>
    match s.put path content with
    | (.ok (), s') => .ok s'
    | (.error f, _) => .error f
  | delete path => s.delete path

end Call

/-- Makes calls, all of which have to succeed. -/
def performAll (s : Directory) : List Call → Except Failure Directory
  | [] => .ok s
  | call :: rest => do (← call.perform s).performAll rest

variable {call : Call} {calls : List Call}

theorem put_of_perform (h : (Call.put path content).perform s = .ok s') :
    s.put path content = (.ok (), s') := by
  rw [Call.perform] at h
  split at h
  · next put =>
    cases h
    exact put
  · cases h

theorem later_perform (plain : Path.Plain call.object.toList) (h : call.perform s = .ok s') :
    Later s s' := by
  cases call with
  | put path content =>
    obtain ⟨-, -, later, -⟩ := put_done plain (put_of_perform h)
    exact later
  | delete path => exact later_delete plain h

/-- What a call that succeeds does to the objects at other paths. -/
theorem object?_perform (plain : Path.Plain call.object.toList) (h : call.perform s = .ok s')
    (plain' : Path.Plain other.toList) (apart : call.object ≠ other) :
    s'.object? other = if call.stages other then none else s.object? other := by
  cases call with
  | put path content =>
    have stages : other = staged path ↔ (staged path == other) = true := by
      rw [beq_iff_eq, eq_comm]
    rw [object?_put plain (put_of_perform h) plain', if_neg (Ne.symm apart)]
    exact if_congr stages rfl rfl
  | delete path => exact object?_delete plain h plain' apart

theorem tree_perform (tree : s.disk.Tree) (h : call.perform s = .ok s') : s'.disk.Tree := by
  cases call with
  | put path content => exact tree_put tree (put_of_perform h)
  | delete path => exact tree_delete tree h

theorem later_performAll (plain : ∀ call ∈ calls, Path.Plain call.object.toList)
    (run : s.performAll calls = .ok s') : Later s s' := by
  induction calls generalizing s with
  | nil =>
    cases run
    exact .refl _
  | cons call rest ih =>
    obtain ⟨between, first, run⟩ := ok_of_bind run
    rw [List.forall_mem_cons] at plain
    have later := later_perform plain.1 first
    have later' := ih plain.2 run
    exact ⟨later'.base.trans later.base, later.keeps.trans later'.keeps⟩

/-- What a run of calls does to the objects at paths it does not name: those at which a file has
been written first are gone, and all others stay. -/
theorem object?_performAll (plain : ∀ call ∈ calls, Path.Plain call.object.toList)
    (run : s.performAll calls = .ok s') (plain' : Path.Plain other.toList)
    (apart : ∀ call ∈ calls, call.object ≠ other) :
    s'.object? other = if calls.any (·.stages other) then none else s.object? other := by
  induction calls generalizing s with
  | nil =>
    cases run
    rfl
  | cons call rest ih =>
    obtain ⟨between, first, run⟩ := ok_of_bind run
    rw [List.forall_mem_cons] at plain apart
    rw [ih plain.2 run apart.2, object?_perform plain.1 first plain' apart.1, List.any_cons]
    cases call.stages other <;> cases rest.any (·.stages other) <;> rfl

theorem tree_performAll (tree : s.disk.Tree) (run : s.performAll calls = .ok s') :
    s'.disk.Tree := by
  induction calls generalizing s with
  | nil =>
    cases run
    exact tree
  | cons call rest ih =>
    obtain ⟨between, first, run⟩ := ok_of_bind run
    exact ih (tree_perform tree first) run

theorem performAll_append (early late : List Call) :
    s.performAll (early ++ late)
      = s.performAll early >>= fun between => between.performAll late := by
  induction early generalizing s with
  | nil => rfl
  | cons call rest ih =>
    rw [List.cons_append, performAll, performAll]
    cases call.perform s with
    | error f => rfl
    | ok between => exact ih

/-! ## What can be read and is listed -/

/-- An object can be read just if it is there and its path is found. -/
theorem read_eq_ok_iff (plain : Path.Plain path.toList) : s.read path 0 none = .ok content ↔
    (∃ target, s.resolve path = .ok target) ∧
      s.disk.locate (Path.join s.base path.toList) = .ok (s.location path) ∧
      s.object? path = some content := by
  have found : ∀ {target}, s.resolve path = .ok target → (s.disk.stat target = .ok (.file content) ↔
      s.disk.locate (Path.join s.base path.toList) = .ok (s.location path) ∧
        s.object? path = some content) := by
    intro target resolved
    have resolves := resolves_of_resolve resolved
    rw [stat_eq_ok_iff, resolves.start, resolves.follow_plain plain, object?_eq_some,
      resolves.target]
  rw [read_eq_ok]
  constructor
  · rintro ⟨target, resolved, stands⟩
    exact ⟨⟨target, resolved⟩, (found resolved).mp stands⟩
  · rintro ⟨⟨target, resolved⟩, there⟩
    exact ⟨target, resolved, (found resolved).mpr there⟩

/-- A plain path is listed just if there is an object and it has not the ending of files that are
being written, in a directory that is found. -/
theorem mem_list_iff_object? (tree : s.disk.Tree) (plain : Path.Plain path.toList)
    (located : s.disk.locate s.base = .ok s.origin)
    (stands : s.disk.entry? s.origin = some .directory) : path ∈ s.list ↔
      (∃ content, s.object? path = some content) ∧ isStaging path.toList = false := by
  have file : ∀ content, s.disk.entries[s.origin ++ Path.names path.toList]? = some (.file content)
      ↔ s.object? path = some content := by
    intro content
    rw [object?_eq_some, Disk.entry?, if_neg (by simpa using location_ne_nil plain s)]
    rfl
  rw [mem_list_iff located stands]
  constructor
  · rintro ⟨names, below, same, kept⟩
    have named := names_of_mem_filesBelow tree below
    rw [same] at named
    obtain ⟨content, there⟩ := mem_filesBelow.mp below
    exact ⟨⟨content, (file content).mp (named ▸ there)⟩, kept⟩
  · rintro ⟨⟨content, there⟩, kept⟩
    refine ⟨_, mem_filesBelow.mpr ⟨content, (file content).mpr there⟩, ?_, kept⟩
    rw [plain.intercalate, String.ofList_toList]

/-- Just objects are listed. -/
theorem object?_of_mem_list (tree : s.disk.Tree) (plain : Path.Plain path.toList)
    (listed : path ∈ s.list) : ∃ content, s.object? path = some content := by
  have nonempty : path ≠ "" := by
    rintro rfl
    exact plain.names_ne_nil rfl
  obtain ⟨located, stands⟩ := locate_of_mem_list nonempty listed
  exact ((mem_list_iff_object? tree plain located stands).mp listed).1

/-- An object whose path is found is listed once, if its path has not the ending of files that are
being written and the path of the base is not empty. -/
theorem count_list (tree : s.disk.Tree) (plain : Path.Plain path.toList)
    (located : s.disk.locate (Path.join s.base path.toList) = .ok (s.location path))
    (there : s.object? path = some content) :
    s.list.count path = if isStaging path.toList ∨ s.base = [] then 0 else 1 := by
  have nodup : s.list.Nodup := nodup_list fun _ below => names_of_mem_filesBelow tree below
  rw [nodup.count]
  by_cases empty : s.base = []
  · have unlisted : path ∉ s.list := fun listed =>
      ObjectStore.enumerates_of_mem_list (s := .directory s) listed (congrArg some empty)
    rw [if_neg unlisted, if_pos (Or.inr empty)]
  · obtain ⟨found, stands⟩ := locate_base empty plain.relative plain.names_ne_nil located
    have listed := mem_list_iff_object? tree plain found stands
    by_cases ending : isStaging path.toList = true
    · rw [if_neg fun inside => ?_, if_pos (Or.inl ending)]
      cases ending.symm.trans (listed.mp inside).2
    · rw [if_pos (listed.mpr ⟨⟨content, there⟩, eq_false_of_ne_true ending⟩), if_neg]
      exact not_or.mpr ⟨ending, empty⟩

theorem Later.resolve (later : Later s s') (path : String) : s'.resolve path = s.resolve path := by
  rw [Directory.resolve, Directory.resolve, later.base]

theorem Later.locate_join (later : Later s s')
    (located : s.disk.locate (Path.join s.base path.toList) = .ok (s.location path)) :
    s'.disk.locate (Path.join s'.base path.toList) = .ok (s'.location path) := by
  rw [later.base, later.location]
  exact later.keeps.locate located

theorem exists_resolve_of_put (h : s.put path content = (.ok (), s')) :
    ∃ target, s.resolve path = .ok target := by
  rcases resolved : s.resolve path with f | target
  · rw [put, resolved] at h
    cases h
  · exact ⟨target, rfl⟩

/-- What a write that succeeds does to what can be read at another path. -/
theorem read_put {found : Bytes} (plain : Path.Plain path.toList)
    (h : s.put path content = (.ok (), s')) (plain' : Path.Plain other.toList)
    (apart : other ≠ path)
    (isRead : s.read other 0 none = .ok found) :
    if other = staged path then ∀ found', s'.read other 0 none ≠ .ok found'
    else s'.read other 0 none = .ok found := by
  obtain ⟨-, -, later, -⟩ := put_done plain h
  have object := object?_put plain h plain'
  rw [if_neg apart] at object
  obtain ⟨resolved, located, there⟩ := (read_eq_ok_iff plain').mp isRead
  split
  · next isStaged =>
    intro found' isRead'
    rw [if_pos isStaged] at object
    cases object.symm.trans ((read_eq_ok_iff plain').mp isRead').2.2
  · next notStaged =>
    rw [if_neg notStaged] at object
    exact (read_eq_ok_iff plain').mpr
      ⟨later.resolve other ▸ resolved, later.locate_join located, object.trans there⟩

/-- What can be read and is listed after a run of calls that succeed, at a path at which an object
was written last.  If a later write has gone through the file at this path, then the object can not
be read and is not listed.  Otherwise it can be read as it was written; and it is listed, once, but
for two cases: its path has the ending of files that are being written, or the path of the base is
empty.

A single write at the path takes from every other path the object that is at the path of the file
written first, and leaves all others. -/
theorem objects_kept {early late : List Call} (tree : s.disk.Tree)
    (plain : ∀ call ∈ early ++ .put path content :: late, Path.Plain call.object.toList)
    (run : s.performAll (early ++ .put path content :: late) = .ok s')
    (last : ∀ call ∈ late, call.object ≠ path) :
    (if late.any (·.stages path) then (∀ found, s'.read path 0 none ≠ .ok found) ∧ path ∉ s'.list
      else s'.read path 0 none = .ok content ∧
        s'.list.count path = if isStaging path.toList ∨ s.base = [] then 0 else 1) ∧
    ∀ (t t' : Directory) (other : String) (data found : Bytes), Path.Plain other.toList →
      other ≠ path → t.put path data = (.ok (), t') → t.read other 0 none = .ok found →
      if other = staged path then ∀ found', t'.read other 0 none ≠ .ok found'
      else t'.read other 0 none = .ok found := by
  rw [List.forall_mem_append, List.forall_mem_cons] at plain
  obtain ⟨plainEarly, isPlain, plainLate⟩ := plain
  change Path.Plain path.toList at isPlain
  refine ⟨?_, fun t t' other data found plain' apart put isRead =>
    read_put isPlain put plain' apart isRead⟩
  have tree' := tree_performAll tree run
  -- The run is cut at the last write at the path.  What comes before it does not matter.
  rw [performAll_append] at run
  obtain ⟨before, first, run⟩ := ok_of_bind run
  obtain ⟨between, performed, run⟩ := ok_of_bind run
  have put := put_of_perform performed
  have laterEarly := later_performAll plainEarly first
  obtain ⟨_, -, laterPut, placed⟩ := put_done isPlain put
  have laterLate := later_performAll plainLate run
  have located : s'.disk.locate (Path.join s'.base path.toList) = .ok (s'.location path) := by
    refine laterLate.locate_join ?_
    rw [laterPut.base, laterPut.location]
    exact placed.locate
  have object := object?_performAll plainLate run isPlain last
  rw [object?_put isPlain put isPlain, if_pos rfl] at object
  split
  · next gone =>
    rw [if_pos gone] at object
    refine ⟨fun found isRead => ?_, fun listed => ?_⟩
    · cases object.symm.trans ((read_eq_ok_iff isPlain).mp isRead).2.2
    · obtain ⟨found, there⟩ := object?_of_mem_list tree' isPlain listed
      cases object.symm.trans there
  · next stays =>
    rw [if_neg stays] at object
    have resolved : ∃ target, s'.resolve path = .ok target := by
      rw [laterLate.resolve, laterPut.resolve]
      exact exists_resolve_of_put put
    refine ⟨(read_eq_ok_iff isPlain).mpr ⟨resolved, located, object⟩, ?_⟩
    rw [count_list tree' isPlain located object, laterLate.base, laterPut.base, laterEarly.base]

/-! ### Two objects with different endings -/

theorem ok_of_toOption {ε α : Type} {x : Except ε α} {a : α} (h : x.toOption = some a) :
    x = .ok a := by
  cases x with
  | error e => cases h
  | ok b =>
    cases h
    rfl

/-- An empty store. -/
def vacantStore : Directory := ⟨"blocks".toList, .empty⟩

/-- The write of an object, and then of one whose path has another ending. -/
def neighbours : List Call := [.put "a.tmp" [1], .put "a.bin" [2]]

theorem performAll_neighbours :
    (vacantStore.performAll [.put "a.tmp" [1]]).toOption.map
      (fun s => (s.list, (s.read "a.tmp" 0 none).toOption)) = some ([], some [1]) ∧
    (vacantStore.performAll neighbours).toOption.map
      (fun s => (s.list, (s.read "a.tmp" 0 none).toOption)) = some (["a.bin"], none) := by
  decide +kernel

/-- The first object is there and not listed, and after the second write it can not be read. -/
theorem not_kept : ∃ s₁ s₂, vacantStore.performAll [.put "a.tmp" [1]] = .ok s₁ ∧
    s₁.read "a.tmp" 0 none = .ok [1] ∧ "a.tmp" ∉ s₁.list ∧
    s₁.performAll [.put "a.bin" [2]] = .ok s₂ ∧ ∀ found, s₂.read "a.tmp" 0 none ≠ .ok found := by
  obtain ⟨first, both⟩ := performAll_neighbours
  obtain ⟨s₁, run₁, outcome₁⟩ := Option.map_eq_some_iff.mp first
  obtain ⟨s₂, run₂, outcome₂⟩ := Option.map_eq_some_iff.mp both
  obtain ⟨listed, isRead⟩ := Prod.mk.inj outcome₁
  have late := (performAll_append [.put "a.tmp" [1]] [.put "a.bin" [2]]).symm.trans
    (ok_of_toOption run₂)
  rw [ok_of_toOption run₁] at late
  refine ⟨s₁, s₂, ok_of_toOption run₁, ok_of_toOption isRead, ?_, late, fun found isRead' => ?_⟩
  · rw [listed]
    exact List.not_mem_nil
  · have missing := (Prod.mk.inj outcome₂).2
    rw [isRead'] at missing
    cases missing

/-- The second object can be read and is listed once. -/
theorem objects_kept_neighbours : ∃ s', vacantStore.performAll neighbours = .ok s' ∧
    s'.read "a.bin" 0 none = .ok [2] ∧ s'.list.count "a.bin" = 1 := by
  obtain ⟨s', run, -⟩ := Option.map_eq_some_iff.mp performAll_neighbours.2
  have run' : vacantStore.performAll ([.put "a.tmp" [1]] ++ .put "a.bin" [2] :: []) = .ok s' :=
    ok_of_toOption run
  exact ⟨s', run', (objects_kept (.empty []) (by decide) run' (by simp)).1⟩

end Directory

end PinnedStore
