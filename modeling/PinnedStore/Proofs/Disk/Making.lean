import Mathlib.Algebra.BigOperators.Group.List.Basic
import Mathlib.Data.List.Induction
import Mathlib.Data.List.TakeWhile
import PinnedStore.Proofs.Disk.Walk

/-!
# Making directories succeeds

A directory and all that are missing on the way to it can be made as long as no file is on the way,
the names are short enough, and the operating system looks at the path at all.  The text of the path
matters little: what is made is the way along its names, including names that lead out again, such
as the `x` of `x/../y`.

Names of two dots are the reason why the disk has to be a tree.  Where `x` stands the name above it
leads to the directory that holds `x`, and on a disk on which something could stand in no directory
there might be none.

* `Disk.Rooted`: whatever stands somewhere stands in a directory.
* `Disk.walk_cases`: a walk past no file goes through or finds something missing.
* `Disk.makeDirectories_of_free`: directories can be made where no file is on the way.
-/

namespace PinnedStore

/-! ## Paths and their parents -/

namespace Path

variable {path parent : List Char}

theorem head?_dropIdle (path : List Char) : (dropIdle path).head? ≠ some '/' := by
  fun_induction dropIdle path with
  | case1 rest ih => exact ih
  | case2 rest ih => exact ih
  | case3 path noSlash noDot =>
    intro head
    obtain ⟨rest, rfl⟩ := List.head?_eq_some_iff.mp head
    exact noSlash rest rfl

theorem dropIdle_dropIdle (path : List Char) : dropIdle (dropIdle path) = dropIdle path := by
  fun_induction dropIdle path with
  | case1 rest ih => exact ih
  | case2 rest ih => exact ih
  | case3 path noSlash noDot => exact dropIdle.eq_3 path noSlash noDot

/-- What is idle at the end of a path is dots. -/
theorem names_dropIdle (path : List Char) :
    ∃ dots, names path.reverse = names (dropIdle path).reverse ++ List.replicate dots "." := by
  fun_induction dropIdle path with
  | case1 rest ih =>
    rw [List.reverse_cons, names_append_slash_nil]
    exact ih
  | case2 rest ih =>
    obtain ⟨dots, named⟩ := ih
    have shape : ('.' :: '/' :: rest).reverse = rest.reverse ++ '/' :: ['.'] := by simp
    have dot : names ['.'] = ["."] := names_of_plain (by simp) (by decide)
    refine ⟨dots + 1, ?_⟩
    rw [shape, names_append_slash, named, dot, List.append_assoc, List.replicate_succ']
  | case3 path noSlash noDot => exact ⟨0, by simp⟩

theorem fst_splitLast_eq_nil (h : (splitLast path).1 = []) : dropIdle path.reverse = [] := by
  rcases shape : dropIdle path.reverse with _ | ⟨c, rest⟩
  · rfl
  · have notSlash : c ≠ '/' := by
      rintro rfl
      exact head?_dropIdle path.reverse (by rw [shape]; rfl)
    simp [splitLast, shape, notSlash] at h

theorem parent?_eq (path : List Char) : parent? path = if (splitLast path).1.isEmpty then none
    else some (if (dropIdle (splitLast path).2).isEmpty && isAbsolute path then ['/']
      else (dropIdle (splitLast path).2).reverse) := rfl

/-- A path that has no parent leads nowhere. -/
theorem names_of_parent?_eq_none (h : parent? path = none) :
    ∃ dots, names path = List.replicate dots "." := by
  rw [parent?_eq] at h
  have nameless : (splitLast path).1 = [] := by simpa using h
  obtain ⟨dots, named⟩ := names_dropIdle path.reverse
  rw [List.reverse_reverse, fst_splitLast_eq_nil nameless, List.reverse_nil, names_nil,
    List.nil_append] at named
  exact ⟨dots, named⟩

theorem parent?_prefix (h : parent? path = some parent) : parent <+: path := by
  rcases parent?_spec h with ⟨rest, shape, -⟩ | ⟨rfl, absolute⟩ | ⟨rfl, -⟩
  · obtain ⟨idle, whole⟩ := splitLast_spec path
    exact ⟨'/' :: rest ++ ((splitLast path).1.reverse ++ idle), by
      rw [← List.append_assoc, ← shape, ← whole]⟩
  · obtain ⟨rest, rfl⟩ := List.head?_eq_some_iff.mp (by simpa [isAbsolute] using absolute)
    exact ⟨rest, rfl⟩
  · exact List.nil_prefix

/-- Nothing idle stands at the end of a parent, unless it is the root. -/
theorem isTight_of_parent? (h : parent? path = some parent) :
    IsTight parent ∨ parent? parent = none := by
  rw [parent?_eq] at h
  have parted := (Option.ite_none_left_eq_some.mp h).2
  split at parted
  · cases parted
    exact Or.inr rfl
  · cases parted
    refine Or.inl ?_
    rw [IsTight, List.reverse_reverse, dropIdle_dropIdle]

/-- A path with nothing idle at its end has one name more than its parent, apart from dots. -/
theorem names_of_parent? (tight : IsTight path) (h : parent? path = some parent) :
    ∃ dots name, names path = names parent ++ List.replicate dots "." ++ [name] := by
  have pieces : (splitLast path).1 ++ (splitLast path).2 = path.reverse := by
    rw [← tight]
    exact List.takeWhile_append_dropWhile
  have whole : path = (splitLast path).2.reverse ++ (splitLast path).1.reverse := by
    rw [← List.reverse_append, pieces, List.reverse_reverse]
  have noSlash : '/' ∉ (splitLast path).1.reverse := by
    intro inside
    have := List.mem_takeWhile_imp (List.mem_reverse.mp inside)
    simp at this
  have isFront : IsFront (splitLast path).2.reverse := by
    rcases splitLast_before path with none | slash
    · exact Or.inl (by rw [none]; rfl)
    · obtain ⟨rest, shape⟩ := List.head?_eq_some_iff.mp slash
      exact Or.inr ⟨rest.reverse, by rw [shape, List.reverse_cons]⟩
  rw [parent?_eq] at h
  obtain ⟨named, parted⟩ := Option.ite_none_left_eq_some.mp h
  have nonempty : (splitLast path).1.reverse ≠ [] := by simpa using named
  -- The root and the nothing above a path both have no names.
  have above : names parent = names (dropIdle (splitLast path).2).reverse := by
    split at parted
    · next empty =>
      cases parted
      have none : dropIdle (splitLast path).2 = [] := by
        simpa using (Bool.and_eq_true_iff.mp empty).1
      rw [none]
      exact names_append_slash_nil []
    · cases parted
      rfl
  obtain ⟨dots, before⟩ := names_dropIdle (splitLast path).2
  refine ⟨dots, String.ofList (splitLast path).1.reverse, ?_⟩
  rw [above, ← before, ← names_of_plain nonempty noSlash, ← names_isFront_append isFront, ← whole]

theorem length_names_le (path : List Char) : (names path).length ≤ path.length := by
  have nonempty : ∀ name ∈ names path, 1 ≤ name.toList.length := by
    intro name h
    obtain ⟨chars, inside, rfl⟩ := List.mem_map.mp h
    have := (List.mem_filter.mp inside).2
    rw [String.toList_ofList]
    exact List.length_pos_iff.mpr (by simpa using this)
  have few : ∀ l : List String, (∀ name ∈ l, 1 ≤ name.toList.length) →
      l.length ≤ (l.flatMap String.toList).length := by
    intro l each
    rw [List.length_flatMap]
    have := List.length_le_sum_of_one_le (l.map (·.toList.length)) (by simpa using each)
    rwa [List.length_map] at this
  calc (names path).length ≤ ((names path).flatMap String.toList).length := few _ nonempty
    _ = (path.filter (· ≠ '/')).length := by rw [flatMap_names]
    _ ≤ path.length := List.length_filter_le _ _

theorem length_le_of_mem_names {name : String} (h : name ∈ names path) :
    name.toList.length ≤ path.length := by
  have inside : name.toList.Sublist ((names path).flatMap String.toList) :=
    List.sublist_flatten_of_mem (List.mem_map_of_mem h)
  rw [flatMap_names] at inside
  exact inside.length_le.trans (List.length_filter_le _ _)

/-- Joining puts the paths behind one another, with a slash between them if it takes one. -/
theorem join_eq_append (base : List Char) {below : List Char}
    (relative : isAbsolute below = false) :
    ∃ gap, (gap = [] ∨ gap = ['/']) ∧ join base below = base ++ gap ++ below := by
  unfold join
  by_cases empty : base = []
  · exact ⟨[], Or.inl rfl, by simp [empty]⟩
  · rw [if_neg (by simp [relative, empty])]
    split
    · exact ⟨[], Or.inl rfl, by simp⟩
    · exact ⟨['/'], Or.inr rfl, by simp⟩

end Path

namespace Disk

variable {disk disk' : Disk} {path : List Char}

/-! ## What the operating system looks at -/

theorem check_eq_ok : check path = .ok () ↔
    path ≠ [] ∧ '\x00' ∉ path ∧ (String.ofList path).utf8ByteSize ≤ longestPath := by
  unfold check
  split
  · next nul => simp [List.contains_iff_mem.mp nul]
  · next noNul =>
    have absent : '\x00' ∉ path := fun nul => noNul (List.contains_iff_mem.mpr nul)
    split
    · next empty => simp [List.isEmpty_iff.mp empty]
    · next nonempty =>
      split
      · next long => simp [Nat.not_le.mpr long]
      · next short => simpa [absent, Nat.not_lt.mp short] using nonempty

/-- Where the operating system looks at a path it looks at every part it begins with. -/
theorem check_of_prefix {early : List Char} (fine : check path = .ok ()) (isEarly : early <+: path)
    (nonempty : early ≠ []) : check early = .ok () := by
  obtain ⟨-, noNul, short⟩ := check_eq_ok.mp fine
  obtain ⟨rest, rfl⟩ := isEarly
  rw [String.ofList_append, String.utf8ByteSize_append] at short
  refine check_eq_ok.mpr ⟨nonempty, fun nul => noNul (List.mem_append_left _ nul), ?_⟩
  exact le_trans (Nat.le_add_right _ _) short

/-! ## Trees -/

/-- Whatever stands somewhere stands in a directory. -/
def Rooted (disk : Disk) : Prop :=
  ∀ l name, disk.entry? (l ++ [name]) ≠ none → disk.entry? l = some .directory

namespace Rooted

theorem dropLast (rooted : disk.Rooted) {l : Location} (stands : disk.entry? l = some .directory) :
    disk.entry? l.dropLast = some .directory := by
  rcases List.eq_nil_or_concat l with rfl | ⟨above, name, rfl⟩
  · exact stands
  · rw [List.concat_eq_append] at stands ⊢
    rw [List.dropLast_concat]
    exact rooted above name (by rw [stands]; nofun)

theorem set (rooted : disk.Rooted) {l above : Location} {name : String}
    (parted : l = above ++ [name])
    (stands : disk.entry? above = some .directory) {e : Entry}
    (kept : disk.entry? l = some .directory → e = .directory) : (disk.set l e).Rooted := by
  have below : l ≠ [] := by simp [parted]
  have stays : ∀ l', disk.entry? l' = some .directory →
      entry? (disk.set l e) l' = some .directory := by
    intro l' stands'
    rw [entry?_set below]
    split
    · next same => rw [kept (same ▸ stands')]
    · exact stands'
  intro l' name' there
  rw [entry?_set below] at there
  split at there
  · next same =>
    obtain ⟨rfl, -⟩ := List.append_inj' (same.trans parted) rfl
    exact stays _ stands
  · exact stays _ (rooted l' name' there)

theorem erase (rooted : disk.Rooted) {l : Location} (below : l ≠ [])
    (free : disk.entry? l ≠ some .directory) : (disk.erase l).Rooted := by
  intro l' name' there
  rw [entry?_erase below] at there ⊢
  split at there
  · exact absurd rfl there
  · have stands := rooted l' name' there
    rw [if_neg, stands]
    rintro rfl
    exact free stands

end Rooted

/-! ## Walking along directories -/

/-- Every place on the way is a directory. -/
def Open (disk : Disk) (start : Location) (names : List String) : Prop :=
  ∀ l, OnTheWay start names l → disk.entry? l = some .directory

/-- No file is on the way. -/
def Free (disk : Disk) (start : Location) (names : List String) : Prop :=
  ∀ l, OnTheWay start names l → ∀ content, disk.entry? l ≠ some (.file content)

variable {start l : Location} {names front : List String} {name : String}

theorem onTheWay_end (start : Location) (names : List String) :
    OnTheWay start names (follow start names) :=
  ⟨names, List.prefix_refl _, rfl⟩

theorem OnTheWay.append (way : OnTheWay start front l) (rest : List String) :
    OnTheWay start (front ++ rest) l := by
  obtain ⟨early, isEarly, leads⟩ := way
  exact ⟨early, isEarly.trans (List.prefix_append _ _), leads⟩

theorem onTheWay_concat : OnTheWay start (front ++ [name]) l
    ↔ OnTheWay start front l ∨ l = follow start (front ++ [name]) := by
  constructor
  · rintro ⟨early, isEarly, leads⟩
    rcases List.prefix_concat_iff.mp isEarly with rfl | before
    · exact Or.inr leads
    · exact Or.inl ⟨early, before, leads⟩
  · rintro (way | rfl)
    · exact way.append _
    · exact onTheWay_end _ _

/-- Dots lead nowhere. -/
theorem onTheWay_dots {dots : Nat} (way : OnTheWay start (front ++ List.replicate dots ".") l) :
    OnTheWay start front l := by
  induction dots with
  | zero => simpa using way
  | succ dots ih =>
    rw [List.replicate_succ', ← List.append_assoc] at way
    rcases onTheWay_concat.mp way with before | rfl
    · exact ih before
    · refine ih ?_
      rw [follow_append _ _ ["."], follow, if_pos rfl, follow]
      exact onTheWay_end _ _

namespace Open

theorem left {rest : List String} (isOpen : Open disk start (front ++ rest)) :
    Open disk start front :=
  fun l way => isOpen l (way.append rest)

theorem concat (isOpen : Open disk start front)
    (stands : disk.entry? (follow start (front ++ [name])) = some .directory) :
    Open disk start (front ++ [name]) := by
  intro l way
  rcases onTheWay_concat.mp way with before | rfl
  · exact isOpen l before
  · exact stands

theorem keeps (isOpen : Open disk start names) (keeps : KeepsDirectories disk disk') :
    Open disk' start names :=
  fun l way => keeps.entry? (isOpen l way)

theorem free (isOpen : Open disk start names) : Free disk start names := by
  intro l way content there
  cases there.symm.trans (isOpen l way)

end Open

namespace Free

theorem left {rest : List String} (free : Free disk start (front ++ rest)) :
    Free disk start front :=
  fun l way => free l (way.append rest)

theorem onlyMakes {made : Location → Prop} (free : Free disk start names)
    (makes : OnlyMakes made disk disk') : Free disk' start names := by
  intro l way content there
  rcases makes.entry? l with same | ⟨-, stands, -⟩
  · exact free l way content (same ▸ there)
  · cases stands.symm.trans there

end Free

/-- A walk past no file ends in a directory and has passed nothing else, or finds something
missing. -/
theorem walk_cases (short : ∀ name ∈ names, name.utf8ByteSize ≤ longestName)
    (free : Free disk start names) :
    (Open disk start names ∧ disk.walk start names = .ok (follow start names)) ∨
      (¬ Open disk start names ∧
        (disk.walk start names >>= disk.requireDirectory) = .error .notFound) := by
  induction names using List.reverseRecOn with
  | nil =>
    rcases there : disk.entry? start with _ | (_ | content)
    · refine Or.inr ⟨fun isOpen => ?_, ?_⟩
      · cases there.symm.trans (isOpen start (onTheWay_end start []))
      · simp only [walk, bind, Except.bind, requireDirectory, there]
    · refine Or.inl ⟨?_, rfl⟩
      rintro l ⟨early, isEarly, rfl⟩
      rw [List.prefix_nil.mp isEarly]
      exact there
    · exact absurd there (free start (onTheWay_end start []) content)
  | append_singleton front name ih =>
    have shortFront : ∀ name ∈ front, name.utf8ByteSize ≤ longestName := fun n h =>
      short n (List.mem_append_left _ h)
    have shortName := short name (by simp)
    rw [walk_append]
    rcases ih shortFront free.left with ⟨isOpen, walked⟩ | ⟨shut, missing⟩
    · have stands := isOpen _ (onTheWay_end start front)
      have last : disk.walk start front >>= (disk.walk · [name])
          = .ok (follow start (front ++ [name])) := by
        rw [walked, follow_append]
        exact walk_one stands shortName
      rw [last]
      rcases there : disk.entry? (follow start (front ++ [name])) with _ | (_ | content)
      · refine Or.inr ⟨fun isOpen => ?_, ?_⟩
        · cases there.symm.trans (isOpen _ (onTheWay_end _ _))
        · simp only [bind, Except.bind, requireDirectory, there]
      · exact Or.inl ⟨isOpen.concat there, rfl⟩
      · exact absurd there (free _ (onTheWay_end _ _) content)
    · refine Or.inr ⟨fun isOpen => shut isOpen.left, ?_⟩
      rcases walked : disk.walk start front with e | between
      · rw [walked] at missing
        exact missing
      · rw [walked] at missing
        change disk.requireDirectory between = _ at missing
        simp only [bind, Except.bind, walk, missing]

theorem Open.walk (isOpen : Open disk start names)
    (short : ∀ name ∈ names, name.utf8ByteSize ≤ longestName) :
    disk.walk start names = .ok (follow start names) := by
  rcases walk_cases short isOpen.free with ⟨-, walked⟩ | ⟨shut, -⟩
  · exact walked
  · exact absurd isOpen shut

/-! ## What paths lead to -/

/-- The place for a new entry is found if the way there is open; otherwise something is missing. -/
theorem locateParent_cases (fine : check path = .ok ()) (named : Path.names path = front ++ [name])
    (short : ∀ name ∈ Path.names path, name.utf8ByteSize ≤ longestName)
    (free : Free disk (disk.start path) front) :
    (Open disk (disk.start path) front ∧ disk.locateParent path
        = .ok (follow (disk.start path) front,
          if name = "." ∨ name = ".." then none else some name)) ∨
      (¬ Open disk (disk.start path) front ∧ disk.locateParent path = .error .notFound) := by
  have shortFront : ∀ name ∈ front, name.utf8ByteSize ≤ longestName := fun n h =>
    short n (named ▸ List.mem_append_left _ h)
  have shortName : ¬ name.utf8ByteSize > longestName :=
    Nat.not_lt.mpr (short name (named ▸ by simp))
  rw [locateParent, fine, named]
  simp only [List.dropLast_concat, List.getLast?_concat]
  rcases walk_cases shortFront free with ⟨isOpen, walked⟩ | ⟨shut, missing⟩
  · have stands := requireDirectory_eq_ok.mpr (isOpen _ (onTheWay_end _ _))
    refine Or.inl ⟨isOpen, ?_⟩
    simp only [walked, bind, Except.bind, stands, shortName, if_false, Bool.or_eq_true,
      decide_eq_true_eq]
    split <;> rfl
  · refine Or.inr ⟨shut, ?_⟩
    rcases walked : disk.walk (disk.start path) front with e | between
    · rw [walked] at missing
      cases missing
      rfl
    · rw [walked] at missing
      change disk.requireDirectory between = _ at missing
      simp only [bind, Except.bind, missing]

theorem isDirectory_of_open (fine : check path = .ok ()) (noSlash : Path.endsInSlash path = false)
    (short : ∀ name ∈ Path.names path, name.utf8ByteSize ≤ longestName)
    (isOpen : Open disk (disk.start path) (Path.names path)) : disk.isDirectory path = true := by
  have located : disk.locate path = .ok (follow (disk.start path) (Path.names path)) := by
    rw [locate, fine, noSlash, if_neg Bool.false_ne_true, List.append_nil]
    exact isOpen.walk short
  have found : disk.stat path = .ok .directory :=
    stat_eq_ok_iff.mpr ⟨located, isOpen _ (onTheWay_end _ _)⟩
  rw [isDirectory, found]
  rfl

/-! ## Making directories -/

theorem endsInSlash_of_isTight (tight : Path.IsTight path) : Path.endsInSlash path = false := by
  have last := Path.head?_dropIdle path.reverse
  rw [tight, List.head?_reverse] at last
  simpa [Path.endsInSlash] using last

/-- A last name of dots leads from a directory to a directory. -/
theorem Rooted.follow_dots (rooted : disk.Rooted) {start : Location}
    (stands : disk.entry? (follow start front) = some .directory)
    (dots : name = "." ∨ name = "..") :
    disk.entry? (follow start (front ++ [name])) = some .directory := by
  rw [follow_append]
  rcases dots with rfl | rfl
  · rw [follow, if_pos rfl, follow]
    exact stands
  · rw [follow, if_neg (by decide), if_pos rfl, follow]
    exact rooted.dropLast stands

/-- What making one directory comes to where no file is in the way: something is missing on the way,
or the directory is there afterwards. -/
theorem makeDirectory_cases (rooted : disk.Rooted) (fine : check path = .ok ())
    (tight : Path.IsTight path) (named : Path.names path = front ++ [name])
    (short : ∀ name ∈ Path.names path, name.utf8ByteSize ≤ longestName)
    (free : Free disk (disk.start path) (Path.names path)) :
    (¬ Open disk (disk.start path) front ∧ disk.makeDirectory path = .error .notFound) ∨
      (∃ disk', disk.makeDirectory path = .ok disk' ∧ disk'.Rooted ∧
        Open disk' (disk.start path) (Path.names path)) ∨
      (disk.makeDirectory path = .error .alreadyExists ∧ disk.isDirectory path = true ∧
        Open disk (disk.start path) (Path.names path)) := by
  have freeFront : Free disk (disk.start path) front := by
    rw [named] at free
    exact free.left
  rcases locateParent_cases fine named short freeFront with ⟨isOpen, found⟩ | ⟨shut, missing⟩
  · refine Or.inr ?_
    have stands := isOpen _ (onTheWay_end _ _)
    have present : disk.makeDirectory path = .error .alreadyExists →
        disk.entry? (follow (disk.start path) (front ++ [name])) = some .directory →
        disk.makeDirectory path = .error .alreadyExists ∧ disk.isDirectory path = true ∧
          Open disk (disk.start path) (Path.names path) := by
      intro made there
      have whole : Open disk (disk.start path) (Path.names path) := named ▸ isOpen.concat there
      exact ⟨made, isDirectory_of_open fine (endsInSlash_of_isTight tight) short whole, whole⟩
    by_cases dots : name = "." ∨ name = ".."
    · rw [if_pos dots] at found
      exact Or.inr (present (by rw [makeDirectory, found]; rfl) (rooted.follow_dots stands dots))
    · rw [if_neg dots] at found
      rw [not_or] at dots
      have leads := follow_concat (disk.start path) front dots.1 dots.2
      rcases there : disk.entry? (follow (disk.start path) front ++ [name]) with _ | (_ | content)
      · refine Or.inl ⟨_, by rw [makeDirectory, found]; simp only [bind, Except.bind, there]; rfl,
          rooted.set rfl stands fun _ => rfl, ?_⟩
        rw [named]
        refine (isOpen.keeps (.set (by simp) ?_ _)).concat ?_
        · rw [there]
          exact (Option.some_ne_none _).symm
        · rw [leads, entry?_set (by simp), if_pos rfl]
      · refine Or.inr (present ?_ (leads ▸ there))
        rw [makeDirectory, found]
        simp only [bind, Except.bind, there]
        rfl
      · refine absurd (leads ▸ there) (free _ ?_ content)
        rw [named]
        exact onTheWay_end _ _
  · refine Or.inl ⟨shut, ?_⟩
    rw [makeDirectory, missing]
    rfl

/-- Directories can be made where no file is on the way. -/
theorem makeDirectoriesFrom_of_free {fuel : Nat} (enough : (Path.names path).length < fuel)
    (rooted : disk.Rooted) (fine : path ≠ [] → check path = .ok ())
    (tight : Path.IsTight path ∨ Path.parent? path = none)
    (short : ∀ name ∈ Path.names path, name.utf8ByteSize ≤ longestName)
    (stands : disk.entry? (disk.start path) = some .directory)
    (free : Free disk (disk.start path) (Path.names path)) :
    ∃ disk', makeDirectoriesFrom fuel disk path = (.ok (), disk') ∧ disk'.Rooted ∧
      Open disk' (disk.start path) (Path.names path) := by
  -- The induction is on the fuel: a parent has fewer names than the path.
  induction fuel generalizing disk path with
  | zero => exact absurd enough (Nat.not_lt_zero _)
  | succ fuel ih =>
    unfold makeDirectoriesFrom
    rcases above : Path.parent? path with _ | parent
    · obtain ⟨dots, named⟩ := Path.names_of_parent?_eq_none above
      refine ⟨disk, rfl, rooted, ?_⟩
      rintro l way
      rw [named, ← List.nil_append (List.replicate dots ".")] at way
      obtain ⟨early, isEarly, rfl⟩ := onTheWay_dots way
      rw [List.prefix_nil.mp isEarly]
      exact stands
    · dsimp only
      have tight : Path.IsTight path := tight.resolve_right (by simp [above])
      have nonempty : path ≠ [] := by
        rintro rfl
        cases above
      obtain ⟨dots, name, named⟩ := Path.names_of_parent? tight above
      rcases makeDirectory_cases rooted (fine nonempty) tight named short free with
        ⟨-, missing⟩ | ⟨disk', made, rooted', whole⟩ | ⟨present, isDirectory, whole⟩
      · -- The directories above are made, and then nothing can be missing any more.
        rw [missing]
        dsimp only
        have start := disk.start_parent above
        have freeParent : Free disk (disk.start parent) (Path.names parent) := by
          rw [named, List.append_assoc] at free
          rw [start]
          exact free.left
        obtain ⟨disk', madeAbove, rooted', isOpen⟩ := ih
          (by rw [named, List.length_append, List.length_append] at enough; simp at enough; omega)
          rooted
          (fun some => check_of_prefix (fine nonempty) (Path.parent?_prefix above) some)
          (Path.isTight_of_parent? above)
          (fun n h => short n (by
            rw [named, List.append_assoc]
            exact List.mem_append_left _ h))
          (start ▸ stands) freeParent
        have makes := onlyMakes_makeDirectoriesFrom fuel disk parent
        rw [madeAbove] at makes ⊢
        have start' : disk'.start path = disk.start path := makes.keepsDirectories.start path
        have isOpen' : Open disk' (disk'.start path)
            (Path.names parent ++ List.replicate dots ".") := by
          intro l way
          rw [start', ← start] at way
          exact isOpen l (onTheWay_dots way)
        rcases makeDirectory_cases rooted' (fine nonempty) tight named short
            (start' ▸ free.onlyMakes makes) with
          ⟨shut, -⟩ | ⟨disk'', made, rooted'', whole⟩ | ⟨present, isDirectory, whole⟩
        · exact absurd isOpen' shut
        · exact ⟨disk'', by simp only [made], rooted'', start' ▸ whole⟩
        · exact ⟨disk', by simp only [present, isDirectory, if_true], rooted', start' ▸ whole⟩
      · exact ⟨disk', by rw [made], rooted', whole⟩
      · exact ⟨disk, by simp only [present, isDirectory, if_true], rooted, whole⟩

/-- Directories can be made where no file is on the way. -/
theorem makeDirectories_of_free (rooted : disk.Rooted) (fine : path ≠ [] → check path = .ok ())
    (tight : Path.IsTight path ∨ Path.parent? path = none)
    (short : ∀ name ∈ Path.names path, name.utf8ByteSize ≤ longestName)
    (stands : disk.entry? (disk.start path) = some .directory)
    (free : Free disk (disk.start path) (Path.names path)) :
    ∃ disk', disk.makeDirectories path = (.ok (), disk') ∧ disk'.Rooted ∧
      Open disk' (disk.start path) (Path.names path) :=
  makeDirectoriesFrom_of_free (Nat.lt_succ_of_le (Path.length_names_le path))
    rooted fine tight short
    stands free

/-! ## Files -/

/-- A path the operating system looks at, whose last name is that of an entry. -/
structure Names (path : List Char) (front : List String) (name : String) : Prop where
  fine : check path = .ok ()
  named : Path.names path = front ++ [name]
  short : ∀ name ∈ Path.names path, name.utf8ByteSize ≤ longestName
  plain : name ≠ "." ∧ name ≠ ".."
  noSlash : Path.endsInSlash path = false

namespace Names

theorem follow_eq (names : Names path front name) (start : Location) :
    follow start (Path.names path) = follow start front ++ [name] := by
  rw [names.named, follow_concat _ _ names.plain.1 names.plain.2]

theorem locateParent (names : Names path front name) (isOpen : Open disk (disk.start path) front) :
    disk.locateParent path = .ok (follow (disk.start path) front, some name) := by
  rcases locateParent_cases names.fine names.named names.short isOpen.free with
    ⟨-, found⟩ | ⟨shut, -⟩
  · rw [found, if_neg (by simp [names.plain])]
  · exact absurd isOpen shut

/-- A file can be made where the way is open and no directory stands. -/
theorem createFile (names : Names path front name) (isOpen : Open disk (disk.start path) front)
    (free : disk.entry? (follow (disk.start path) (Path.names path)) ≠ some .directory)
    (content : Bytes) : disk.createFile path content
      = .ok (disk.set (follow (disk.start path) (Path.names path)) (.file content)) := by
  rw [names.follow_eq] at free ⊢
  rw [Disk.createFile, names.locateParent isOpen]
  simp only [bind, Except.bind, names.noSlash, Bool.false_eq_true, if_false]
  rfl

/-- A file can be given another name in the place of what is no directory. -/
theorem rename {source : List Char} {sourceFront : List String} {sourceName : String} {e : Entry}
    (names : Names path front name) (names' : Names source sourceFront sourceName)
    (isOpen : Open disk (disk.start path) front)
    (isOpen' : Open disk (disk.start source) sourceFront)
    (there : disk.entry? (follow (disk.start source) (Path.names source)) = some e)
    (free : disk.entry? (follow (disk.start path) (Path.names path)) ≠ some .directory)
    (apart : follow (disk.start source) (Path.names source)
      ≠ follow (disk.start path) (Path.names path)) :
    disk.rename source path
      = .ok ((disk.erase (follow (disk.start source) (Path.names source))).set
          (follow (disk.start path) (Path.names path)) e) := by
  rw [names.follow_eq] at free apart ⊢
  rw [names'.follow_eq] at there apart ⊢
  rw [Disk.rename, names'.locateParent isOpen', names.locateParent isOpen]
  simp only [bind, Except.bind, there, names.noSlash, Bool.false_eq_true, if_false, if_neg apart]
  rfl

/-- Removing goes through, or there is nothing to remove, where neither a file is on the way nor a
directory at its end. -/
theorem remove_cases (names : Names path front name) (free : Free disk (disk.start path) front)
    (free' : disk.entry? (follow (disk.start path) (Path.names path)) ≠ some .directory) :
    (∃ disk', disk.remove path = .ok disk') ∨ disk.remove path = .error .notFound := by
  rw [names.follow_eq] at free'
  rw [Disk.remove]
  rcases locateParent_cases names.fine names.named names.short free with ⟨-, found⟩ | ⟨-, missing⟩
  · rw [found, if_neg (by simp [names.plain])]
    simp only [bind, Except.bind, names.noSlash, Bool.false_eq_true, if_false]
    split
    · exact Or.inr rfl
    · next stands => exact absurd stands free'
    · exact Or.inl ⟨_, rfl⟩
  · rw [missing]
    exact Or.inr rfl

/-- What stands at the end of the path is found, or something is missing. -/
theorem stat_cases (names : Names path front name) (free : Free disk (disk.start path) front) :
    (∃ e, disk.entry? (follow (disk.start path) (Path.names path)) = some e ∧
        disk.stat path = .ok e) ∨ disk.stat path = .error .notFound := by
  have shortFront : ∀ name ∈ front, name.utf8ByteSize ≤ longestName := fun n h =>
    names.short n (names.named ▸ List.mem_append_left _ h)
  have shortName := names.short name (names.named ▸ by simp)
  have located : disk.locate path = disk.walk (disk.start path) front >>= (disk.walk · [name]) := by
    rw [locate, names.fine, names.noSlash, names.named, if_neg Bool.false_ne_true, List.append_nil]
    exact walk_append _ _ _
  rw [stat, located]
  rcases walk_cases shortFront free with ⟨isOpen, walked⟩ | ⟨shut, missing⟩
  · have last : disk.walk (disk.start path) front >>= (disk.walk · [name])
        = .ok (follow (disk.start path) (Path.names path)) := by
      rw [walked, names.named, follow_append]
      exact walk_one (isOpen _ (onTheWay_end _ _)) shortName
    rw [last]
    rcases there : disk.entry? (follow (disk.start path) (Path.names path)) with _ | e
    · exact Or.inr (by simp only [bind, Except.bind, there]; rfl)
    · exact Or.inl ⟨e, rfl, by simp only [bind, Except.bind, there]; rfl⟩
  · refine Or.inr ?_
    rcases walked : disk.walk (disk.start path) front with e | between
    · rw [walked] at missing
      cases missing
      rfl
    · rw [walked] at missing
      change disk.requireDirectory between = _ at missing
      simp only [bind, Except.bind, walk, missing]

end Names

end Disk

end PinnedStore
