import PinnedStore.Disk.Basic
import PinnedStore.Proofs.Disk.Path

/-!
# Walks and what files leave of a disk

A walk over a disk only ever fails or ends where its names say: where it ends does not depend on the
disk.  So it is enough to know the names of a path to know which location an operation touched, and
a walk that goes through once goes through again as long as no directory is taken away.  No
operation takes a directory away.

* `Disk.walk_follow`, `Disk.locate_follow`: where a walk ends.
* `Disk.stat_eq_ok_iff`: what is found at the end of a path.
* `Disk.KeepsDirectories`: no directory is taken away; walks still go through.
* `Disk.OnlyMakes`: nothing but directories is added, and only at some places.
* `Disk.onlyMakes_makeDirectories`, `Disk.createFile_spec`, `Disk.rename_spec`, `Disk.remove_spec`:
  what the operations leave behind.
-/

namespace PinnedStore

theorem ok_of_bind {ε α β : Type} {x : Except ε α} {f : α → Except ε β} {b : β}
    (h : x >>= f = .ok b) : ∃ a, x = .ok a ∧ f a = .ok b := by
  cases x with
  | error e => cases h
  | ok a => exact ⟨a, rfl, h⟩

namespace Disk

/-! ## Entries -/

variable {disk disk' disk'' : Disk}

theorem entry?_set {location : Location} (below : location ≠ []) (e : Entry) (l : Location) :
    entry? (disk.set location e) l = if l = location then some e else disk.entry? l := by
  by_cases root : l = []
  · simp [ entry?, root, Ne.symm below]
  · by_cases same : l = location
    · simp [ entry?, set, same, below]
    · simp [ entry?, set, root, same, Std.ExtTreeMap.getElem?_insert, Ne.symm same]

theorem entry?_erase {location : Location} (below : location ≠ []) (l : Location) :
    entry? (disk.erase location) l = if l = location then none else disk.entry? l := by
  by_cases root : l = []
  · simp [ entry?, root, Ne.symm below]
  · by_cases same : l = location
    · simp [ entry?, erase, same, below]
    · simp [ entry?, erase, root, same, Std.ExtTreeMap.getElem?_erase, Ne.symm same]

theorem entry?_empty {l : Location} (below : l ≠ []) : entry? .empty l = none := by
  rw [ entry?, if_neg (by simpa using below)]
  exact Std.ExtTreeMap.getElem?_empty

theorem requireDirectory_eq_ok {location : Location} :
    disk.requireDirectory location = .ok () ↔ disk.entry? location = some .directory := by
  unfold requireDirectory
  split <;> simp_all

/-! ## Where a walk ends -/

/-- Where names lead if nothing is in the way. -/
def follow (location : Location) : List String → Location
  | [] => location
  | name :: rest =>
    if name = "." then follow location rest
    else if name = ".." then follow location.dropLast rest
    else follow (location ++ [name]) rest

theorem follow_append (location : Location) (first second : List String) :
    follow location (first ++ second) = follow (follow location first) second := by
  induction first generalizing location with
  | nil => rfl
  | cons name rest ih =>
    rw [List.cons_append, follow, follow]
    split
    · exact ih _
    · split <;> exact ih _

theorem follow_concat (location : Location) (front : List String) {name : String}
    (notDot : name ≠ ".") (notDots : name ≠ "..") :
    follow location (front ++ [name]) = follow location front ++ [name] := by
  rw [follow_append, follow, if_neg notDot, if_neg notDots, follow]

/-- Names without dots are put behind one another. -/
theorem follow_of_dotless (location : Location) {names : List String}
    (dotless : ∀ name ∈ names, '.' ∉ name.toList) : follow location names = location ++ names := by
  induction names generalizing location with
  | nil => rw [follow, List.append_nil]
  | cons name rest ih =>
    have plain : '.' ∉ name.toList := dotless name List.mem_cons_self
    have notDot : name ≠ "." := by rintro rfl; exact plain (by decide)
    have notDots : name ≠ ".." := by rintro rfl; exact plain (by decide)
    rw [follow, if_neg notDot, if_neg notDots, ih _ fun n h => dotless n (List.mem_cons_of_mem _ h),
      List.append_assoc, List.singleton_append]

/-- Names that never climb lead no higher up. -/
theorem length_le_follow {names : List String} (location : Location) (level : ".." ∉ names) :
    location.length ≤ (follow location names).length := by
  induction names generalizing location with
  | nil => exact Nat.le_refl _
  | cons name rest ih =>
    rw [List.mem_cons, not_or] at level
    unfold follow
    split
    · exact ih location level.2
    · rw [if_neg (Ne.symm level.1)]
      have below := ih (location ++ [name]) level.2
      rw [List.length_append] at below
      omega

theorem walk_follow {location reached : Location} {names : List String}
    (h : disk.walk location names = .ok reached) : reached = follow location names := by
  induction names generalizing location with
  | nil => cases h; rfl
  | cons name rest ih =>
    obtain ⟨_, -, h⟩ := ok_of_bind h
    unfold follow
    split at h
    · rw [if_pos ‹_›]; exact ih h
    · rw [if_neg ‹_›]
      split at h
      · rw [if_pos ‹_›]; exact ih h
      · rw [if_neg ‹_›]
        split at h
        · cases h
        · exact ih h

theorem walk_append (location : Location) (first second : List String) :
    disk.walk location (first ++ second)
      = disk.walk location first >>= fun between => disk.walk between second := by
  induction first generalizing location with
  | nil => rfl
  | cons name rest ih =>
    rw [List.cons_append, walk, walk]
    cases disk.requireDirectory location with
    | error e => rfl
    | ok _ =>
      simp only [bind, Except.bind]
      split
      · exact ih _
      · split
        · exact ih _
        · split
          · rfl
          · exact ih _

theorem locate_follow {path : List Char} {reached : Location} (h : disk.locate path = .ok reached) :
    reached = follow (disk.start path) (Path.names path) := by
  obtain ⟨_, -, h⟩ := ok_of_bind h
  rw [walk_follow h, follow_append]
  split
  · rw [follow, if_pos rfl, follow]
  · rfl

/-- Something is found just if the path leads to its end, and it stands there. -/
theorem stat_eq_ok_iff {path : List Char} {e : Entry} : disk.stat path = .ok e ↔
    disk.locate path = .ok (follow (disk.start path) (Path.names path)) ∧
      disk.entry? (follow (disk.start path) (Path.names path)) = some e := by
  constructor
  · intro found
    obtain ⟨reached, located, found⟩ := ok_of_bind found
    have leads := locate_follow located
    subst leads
    split at found
    · next there =>
      cases found
      exact ⟨located, there⟩
    · cases found
  · rintro ⟨located, there⟩
    rw [stat, located]
    simp only [bind, Except.bind, there]
    rfl

/-- A plain name is found below a directory. -/
theorem walk_one {location : Location} {name : String}
    (stands : disk.entry? location = some .directory) (short : name.utf8ByteSize ≤ longestName) :
    disk.walk location [name] = .ok (follow location [name]) := by
  rw [walk, requireDirectory_eq_ok.mpr stands, follow, if_neg (Nat.not_lt.mpr short)]
  split
  · rfl
  · split <;> rfl

/-! ## Directories that stay -/

/-- No directory is taken away. -/
structure KeepsDirectories (disk disk' : Disk) : Prop where
  current : disk'.current = disk.current
  entry? : ∀ {l}, disk.entry? l = some .directory → disk'.entry? l = some .directory

namespace KeepsDirectories

theorem refl (disk : Disk) : KeepsDirectories disk disk := ⟨rfl, id⟩

theorem trans (first : KeepsDirectories disk disk') (second : KeepsDirectories disk' disk'') :
    KeepsDirectories disk disk'' :=
  ⟨second.current.trans first.current, fun h => second.entry? (first.entry? h)⟩

theorem walk (keeps : KeepsDirectories disk disk') {location reached : Location}
    {names : List String} (h : disk.walk location names = .ok reached) :
    disk'.walk location names = .ok reached := by
  induction names generalizing location with
  | nil => exact h
  | cons name rest ih =>
    obtain ⟨_, stands, h⟩ := ok_of_bind h
    rw [Disk.walk, requireDirectory_eq_ok.mpr (keeps.entry? (requireDirectory_eq_ok.mp stands))]
    simp only [bind, Except.bind]
    split at h
    · rw [if_pos ‹_›]; exact ih h
    · rw [if_neg ‹_›]
      split at h
      · rw [if_pos ‹_›]; exact ih h
      · rw [if_neg ‹_›]
        split at h
        · cases h
        · rw [if_neg ‹_›]; exact ih h

theorem start (keeps : KeepsDirectories disk disk') (path : List Char) :
    disk'.start path = disk.start path := by
  rw [Disk.start, Disk.start, keeps.current]

theorem locate (keeps : KeepsDirectories disk disk') {path : List Char} {reached : Location}
    (h : disk.locate path = .ok reached) : disk'.locate path = .ok reached := by
  obtain ⟨_, fine, h⟩ := ok_of_bind h
  rw [Disk.locate, fine, keeps.start]
  exact keeps.walk h

theorem set {location : Location} (below : location ≠ [])
    (free : disk.entry? location ≠ some .directory) (e : Entry) :
    KeepsDirectories disk (disk.set location e) := by
  refine ⟨rfl, fun {l} stands => ?_⟩
  rw [entry?_set below, if_neg, stands]
  rintro rfl
  exact free stands

theorem erase {location : Location} (below : location ≠ [])
    (free : disk.entry? location ≠ some .directory) :
    KeepsDirectories disk (disk.erase location) := by
  refine ⟨rfl, fun {l} stands => ?_⟩
  rw [entry?_erase below, if_neg, stands]
  rintro rfl
  exact free stands

/-- What is a directory after something has been taken away was one before. -/
theorem of_erase {location : Location} (below : location ≠ []) :
    KeepsDirectories (disk.erase location) disk := by
  refine ⟨rfl, fun {l} stands => ?_⟩
  rw [entry?_erase below] at stands
  split at stands
  · cases stands
  · exact stands

end KeepsDirectories

/-! ## Making directories -/

/-- Nothing has changed but that directories have been made, all of them at places of one kind. -/
structure OnlyMakes (made : Location → Prop) (disk disk' : Disk) : Prop where
  current : disk'.current = disk.current
  entry? : ∀ l, disk'.entry? l = disk.entry? l ∨
    (disk.entry? l = none ∧ disk'.entry? l = some .directory ∧ made l)

namespace OnlyMakes

variable {made made' : Location → Prop}

theorem refl (disk : Disk) : OnlyMakes made disk disk := ⟨rfl, fun _ => Or.inl rfl⟩

theorem trans (first : OnlyMakes made disk disk') (second : OnlyMakes made disk' disk'') :
    OnlyMakes made disk disk'' := by
  refine ⟨second.current.trans first.current, fun l => ?_⟩
  rcases first.entry? l with same | ⟨absent, there, kind⟩
  · rcases second.entry? l with same' | ⟨absent', there', kind'⟩
    · exact Or.inl (same'.trans same)
    · exact Or.inr ⟨same ▸ absent', there', kind'⟩
  · rcases second.entry? l with same' | ⟨absent', -, -⟩
    · exact Or.inr ⟨absent, same'.trans there, kind⟩
    · rw [there] at absent'
      cases absent'

theorem mono (h : OnlyMakes made disk disk') (weaker : ∀ l, made l → made' l) :
    OnlyMakes made' disk disk' :=
  ⟨h.current, fun l => (h.entry? l).imp_right fun ⟨absent, there, kind⟩ =>
    ⟨absent, there, weaker l kind⟩⟩

theorem keepsDirectories (h : OnlyMakes made disk disk') : KeepsDirectories disk disk' := by
  refine ⟨h.current, fun {l} stands => ?_⟩
  rcases h.entry? l with same | ⟨absent, -, -⟩
  · rw [same, stands]
  · rw [stands] at absent
    cases absent

/-- No file has been made or taken away. -/
theorem file_iff (h : OnlyMakes made disk disk') {l : Location} {content : Bytes} :
    disk'.entry? l = some (.file content) ↔ disk.entry? l = some (.file content) := by
  rcases h.entry? l with same | ⟨absent, there, -⟩
  · rw [same]
  · rw [absent, there]
    simp

end OnlyMakes

/-- What a path that names a new entry says about the disk. -/
theorem locateParent_spec {path : List Char} {parent : Location} {name : String}
    (h : disk.locateParent path = .ok (parent, some name)) :
    check path = .ok () ∧ disk.entry? parent = some .directory ∧
      disk.walk (disk.start path) (Path.names path) = .ok (parent ++ [name]) := by
  obtain ⟨_, fine, h⟩ := ok_of_bind h
  obtain ⟨reached, walked, h⟩ := ok_of_bind h
  obtain ⟨_, stands, h⟩ := ok_of_bind h
  replace stands := requireDirectory_eq_ok.mp stands
  rcases last : (Path.names path).getLast? with _ | found
  · rw [last] at h
    cases h
  · rw [last] at h
    dsimp only at h
    split at h
    · cases h
    · next notDots =>
      split at h
      · cases h
      · next short =>
        cases h
        refine ⟨fine, stands, ?_⟩
        have plain : name ≠ "." ∧ name ≠ ".." := by simpa [not_or] using notDots
        obtain ⟨front, whole⟩ := List.getLast?_eq_some_iff.mp last
        rw [whole, List.dropLast_concat] at walked
        rw [whole, walk_append, walked]
        refine (walk_one stands (Nat.not_lt.mp short)).trans ?_
        rw [follow, if_neg plain.1, if_neg plain.2, follow]

theorem locateParent_follow {path : List Char} {parent : Location} {name : String}
    (h : disk.locateParent path = .ok (parent, some name)) :
    parent ++ [name] = follow (disk.start path) (Path.names path) :=
  walk_follow (locateParent_spec h).2.2

/-- The places on the way along a path. -/
def OnTheWay (start : Location) (names : List String) (l : Location) : Prop :=
  ∃ early, early <+: names ∧ l = follow start early

theorem onlyMakes_makeDirectory {path : List Char} (h : disk.makeDirectory path = .ok disk') :
    OnlyMakes (OnTheWay (disk.start path) (Path.names path)) disk disk' := by
  obtain ⟨⟨parent, last⟩, located, h⟩ := ok_of_bind h
  cases last with
  | none => cases h
  | some name =>
    dsimp only at h
    split at h
    · cases h
    · next absent =>
      cases h
      refine ⟨rfl, fun l => ?_⟩
      rw [entry?_set (by simp)]
      by_cases new : l = parent ++ [name]
      · rw [if_pos new, new]
        refine Or.inr ⟨by simpa using absent, rfl, _, List.prefix_refl _,
          locateParent_follow located⟩
      · exact Or.inl (if_neg new)

theorem start_parent {path parent : List Char} (h : Path.parent? path = some parent) :
    disk.start parent = disk.start path := by
  rw [start, start, Path.isAbsolute_parent h]

theorem onlyMakes_makeDirectoriesFrom (fuel : Nat) (disk : Disk) (path : List Char) :
    OnlyMakes (OnTheWay (disk.start path) (Path.names path)) disk
      (makeDirectoriesFrom fuel disk path).2 := by
  induction fuel generalizing disk path with
  | zero => exact .refl _
  | succ fuel ih =>
    unfold makeDirectoriesFrom
    split
    · exact .refl _
    · next parent isParent =>
      split
      · next made => exact onlyMakes_makeDirectory made
      · next notFound =>
        have above : OnlyMakes (OnTheWay (disk.start path) (Path.names path)) disk
            (makeDirectoriesFrom fuel disk parent).2 := by
          refine (ih disk parent).mono ?_
          rintro l ⟨early, isEarly, rfl⟩
          refine ⟨early, isEarly.trans ?_, by rw [start_parent isParent]⟩
          exact (Path.names_parent_prefix isParent).trans (Path.names_before_prefix path)
        split
        · next failed => rw [failed] at above; exact above
        · next made succeeded =>
          rw [succeeded] at above
          have start : made.start path = disk.start path := above.keepsDirectories.start path
          split
          · next last lastMade =>
            exact above.trans (start ▸ onlyMakes_makeDirectory lastMade)
          · split <;> exact above
      · split <;> exact .refl _

/-- Making directories adds directories on the way, even where it fails. -/
theorem onlyMakes_makeDirectories (disk : Disk) (path : List Char) :
    OnlyMakes (OnTheWay (disk.start path) (Path.names path)) disk (disk.makeDirectories path).2 :=
  onlyMakes_makeDirectoriesFrom _ _ _

/-! ## Files -/

theorem createFile_spec {path : List Char} {content : Bytes}
    (h : disk.createFile path content = .ok disk') :
    ∃ location, location = follow (disk.start path) (Path.names path) ∧ location ≠ [] ∧
      disk.entry? location ≠ some .directory ∧ disk' = disk.set location (.file content) := by
  obtain ⟨⟨parent, last⟩, located, h⟩ := ok_of_bind h
  cases last with
  | none => cases h
  | some name =>
    refine ⟨parent ++ [name], locateParent_follow located, by simp, ?_⟩
    dsimp only at h
    split at h
    · cases h
    · dsimp only [pure, Except.pure, bind, Except.bind] at h
      split at h
      · cases h
      · next notDirectory =>
        cases h
        exact ⟨notDirectory, rfl⟩

theorem rename_spec {source target : List Char} (h : disk.rename source target = .ok disk') :
    ∃ old new e, old = follow (disk.start source) (Path.names source) ∧
      new = follow (disk.start target) (Path.names target) ∧ old ≠ [] ∧ new ≠ [] ∧
      disk.entry? old = some e ∧ disk.locate target = .ok new ∧
      ((old = new ∧ disk' = disk) ∨
        (old ≠ new ∧ disk.entry? new ≠ some .directory ∧ disk' = (disk.erase old).set new e)) := by
  obtain ⟨⟨parent, last⟩, located, h⟩ := ok_of_bind h
  obtain ⟨⟨parent', last'⟩, located', h⟩ := ok_of_bind h
  cases last with
  | none => cases h
  | some name =>
    cases last' with
    | none => cases h
    | some name' =>
      obtain ⟨fine, -, walked⟩ := locateParent_spec located'
      dsimp only at h
      split at h
      · cases h
      · next e there =>
        refine ⟨parent ++ [name], parent' ++ [name'], e, locateParent_follow located,
          locateParent_follow located', by simp, by simp, there, ?_⟩
        split at h
        · cases h
        · next noSlash =>
          refine ⟨?_, ?_⟩
          · rw [locate, fine, if_neg noSlash, List.append_nil]
            exact walked
          · split at h
            · next same => cases h; exact Or.inl ⟨same, rfl⟩
            · next different =>
              split at h
              · cases h
              · next notDirectory => cases h; exact Or.inr ⟨different, notDirectory, rfl⟩

theorem remove_spec {path : List Char} (h : disk.remove path = .ok disk') :
    ∃ location content, location = follow (disk.start path) (Path.names path) ∧ location ≠ [] ∧
      disk.entry? location = some (.file content) ∧ disk' = disk.erase location := by
  obtain ⟨⟨parent, last⟩, located, h⟩ := ok_of_bind h
  cases last with
  | none => cases h
  | some name =>
    dsimp only at h
    split at h
    · cases h
    · cases h
    · next e notDirectory there =>
      split at h
      · cases h
      · cases h
        cases e with
        | directory => exact (notDirectory rfl).elim
        | file content =>
          exact ⟨parent ++ [name], content, locateParent_follow located, by simp, there, rfl⟩

/-- A file that is found by a plain name can be removed. -/
theorem remove_of_locate {path : List Char} {front : List String} {name : String}
    {location : Location} {content : Bytes} (named : Path.names path = front ++ [name])
    (plain : name ≠ "." ∧ name ≠ "..") (noSlash : Path.endsInSlash path = false)
    (located : disk.locate path = .ok location)
    (there : disk.entry? location = some (.file content)) :
    disk.remove path = .ok (disk.erase location) := by
  obtain ⟨_, fine, walked⟩ := ok_of_bind located
  rw [named, noSlash, if_neg Bool.false_ne_true, List.append_nil, walk_append] at walked
  obtain ⟨parent, early, last⟩ := ok_of_bind walked
  obtain ⟨_, stands, last⟩ := ok_of_bind last
  rw [if_neg plain.1, if_neg plain.2] at last
  split at last
  · cases last
  · next short =>
    cases last
    have found : disk.locateParent path = .ok (parent, some name) := by
      rw [locateParent, fine]
      simp only [named, List.dropLast_concat, List.getLast?_concat, early, stands, plain.1, plain.2,
        short, bind, Except.bind, decide_false, Bool.or_self, Bool.false_eq_true, if_false]
      rfl
    rw [remove, found]
    simp only [bind, Except.bind, there, noSlash]
    rfl

end Disk

end PinnedStore
