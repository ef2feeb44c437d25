import PinnedStore.Disk.Path

/-!
# Names in path texts

What the text operations on paths do to the list of names that an operating system reads off a path.
The operations are cuts and joins of characters, and idle names --- empty ones and single dots ---
make their texts awkward; in terms of `Path.names` each of them is a cut or a join of lists.

* `names_append_slash`, `join_eq`: joining paths joins their names.
* `names_parent_prefix`: the parent of a path has the first names of the path.
* `names_of_parent_of_plain`: where the last name is plain, its own name is not among them.
* `intercalate_names`: a path without empty names is its names with slashes between them.
* `withExtension_of_plain`, `extension?_of_ending`: a last name without a dot gets an ending by
  appending it, and that is its ending then.
-/

namespace PinnedStore.Path

@[simp] theorem names_nil : names [] = [] := by
  simp [names]

/-- A slash joins the names before it to the names after it. -/
theorem names_append_slash (a b : List Char) : names (a ++ '/' :: b) = names a ++ names b := by
  rw [names, List.splitOn_append_cons_self, List.filter_append, List.map_append]
  rfl

/-- A text without slashes is one name. -/
theorem names_of_plain {name : List Char} (nonempty : name ≠ []) (plain : '/' ∉ name) :
    names name = [String.ofList name] := by
  rw [names, List.splitOn_eq_singleton plain]
  simp [nonempty]

theorem names_append_slash_nil (a : List Char) : names (a ++ ['/']) = names a := by
  rw [names_append_slash, names_nil, List.append_nil]

theorem flatten_splitOn (path : List Char) :
    (path.splitOn '/').flatten = path.filter (· ≠ '/') := by
  induction path with
  | nil => rfl
  | cons c rest ih =>
    rw [List.splitOn_cons_eq_if_modifyHead]
    by_cases slash : c = '/'
    · simp [slash, ih]
    · obtain ⟨first, others, parts⟩ := List.exists_cons_of_ne_nil (List.splitOn_ne_nil '/' rest)
      rw [parts] at ih ⊢
      simpa [slash] using ih

/-- The characters of the names are those of the path, without the slashes. -/
theorem flatMap_names (path : List Char) :
    (names path).flatMap String.toList = path.filter (· ≠ '/') := by
  have kept : ∀ parts : List (List Char),
      ((parts.filter (!·.isEmpty)).map String.ofList).flatMap String.toList = parts.flatten := by
    intro parts
    induction parts with
    | nil => rfl
    | cons part rest ih =>
      by_cases empty : part = []
      · simp [empty, ih]
      · simp [empty, ih]
  rw [names, kept, flatten_splitOn]

theorem mem_of_mem_names {path : List Char} {name : String} (h : name ∈ names path) {c : Char}
    (inside : c ∈ name.toList) : c ∈ path := by
  have : c ∈ (names path).flatMap String.toList := List.mem_flatMap.mpr ⟨name, h, inside⟩
  rw [flatMap_names] at this
  exact (List.mem_filter.mp this).1

/-! ## Joining -/

/-- A text that is nothing or ends in a slash, so that a name can follow. -/
def IsFront (front : List Char) : Prop := front = [] ∨ ∃ start, front = start ++ ['/']

theorem IsFront.append {front more : List Char} (h : ∃ start, more = start ++ ['/']) :
    IsFront (front ++ more) := by
  obtain ⟨start, rfl⟩ := h
  exact Or.inr ⟨front ++ start, by rw [List.append_assoc]⟩

theorem names_isFront_append {front : List Char} (h : IsFront front) (below : List Char) :
    names (front ++ below) = names front ++ names below := by
  rcases h with rfl | ⟨start, rfl⟩
  · simp
  · rw [List.append_assoc, List.singleton_append, names_append_slash, names_append_slash_nil]

/-- Joining puts a front before the path below, and that front has the names of the base. -/
theorem join_eq (base : List Char) {below : List Char} (relative : isAbsolute below = false) :
    ∃ front, join base below = front ++ below ∧ IsFront front ∧ names front = names base := by
  unfold join
  by_cases empty : base = []
  · exact ⟨[], by simp [empty], Or.inl rfl, by rw [empty]⟩
  · rw [if_neg (by simp [relative, empty])]
    split
    · next ends =>
      obtain ⟨start, rfl⟩ : ∃ start, base = start ++ ['/'] :=
        List.getLast?_eq_some_iff.mp (by simpa using ends)
      exact ⟨start ++ ['/'], rfl, Or.inr ⟨start, rfl⟩, rfl⟩
    · exact ⟨base ++ ['/'], by simp, Or.inr ⟨base, rfl⟩, names_append_slash_nil base⟩

theorem isAbsolute_join (base : List Char) {below : List Char}
    (relative : isAbsolute below = false) :
    isAbsolute (join base below) = isAbsolute base := by
  unfold join
  by_cases empty : base = []
  · simpa [empty, isAbsolute] using relative
  · rw [if_neg (by simp [relative, empty])]
    obtain ⟨c, rest, rfl⟩ := List.exists_cons_of_ne_nil empty
    split <;> simp [isAbsolute]

/-! ## The parent -/

/-- Nothing idle stands at the end of the path. -/
def IsTight (path : List Char) : Prop := dropIdle path.reverse = path.reverse

/-- What is dropped from the end of a path starts with a slash in reading order.  Nothing is dropped
from a path that ends in no slash and no dot name. -/
theorem dropIdle_spec (path : List Char) :
    ∃ idle, path = idle ++ dropIdle path ∧
      ((idle = [] ∧ path.head? ≠ some '/') ∨ ∃ rest, idle.reverse = '/' :: rest) := by
  fun_induction dropIdle path with
  | case1 rest ih =>
    obtain ⟨idle, equal, shape⟩ := ih
    refine ⟨'/' :: idle, by rw [List.cons_append, ← equal], Or.inr ?_⟩
    rcases shape with ⟨rfl, -⟩ | ⟨more, reversed⟩
    · exact ⟨[], rfl⟩
    · exact ⟨more ++ ['/'], by rw [List.reverse_cons, reversed, List.cons_append]⟩
  | case2 rest ih =>
    obtain ⟨idle, equal, shape⟩ := ih
    refine ⟨'.' :: '/' :: idle, by rw [List.cons_append, List.cons_append, ← equal], Or.inr ?_⟩
    rcases shape with ⟨rfl, -⟩ | ⟨more, reversed⟩
    · exact ⟨['.'], rfl⟩
    · exact ⟨more ++ ['/', '.'], by simp [reversed]⟩
  | case3 path noSlash noDot =>
    refine ⟨[], rfl, Or.inl ⟨rfl, fun head => ?_⟩⟩
    obtain ⟨rest, rfl⟩ := List.head?_eq_some_iff.mp head
    exact noSlash rest rfl

/-- A path is what stands before its last name, that name, and something idle. -/
theorem splitLast_spec (path : List Char) :
    ∃ idle, path = (splitLast path).2.reverse ++ ((splitLast path).1.reverse ++ idle) := by
  obtain ⟨idle, backwards, -⟩ := dropIdle_spec path.reverse
  have pieces := List.takeWhile_append_dropWhile (p := (· ≠ '/')) (l := dropIdle path.reverse)
  have whole := congrArg List.reverse (backwards.trans (congrArg (idle ++ ·) pieces.symm))
  rw [List.reverse_reverse, List.reverse_append, List.reverse_append, List.append_assoc] at whole
  exact ⟨idle.reverse, whole⟩

theorem splitLast_before (path : List Char) :
    (splitLast path).2 = [] ∨ (splitLast path).2.head? = some '/' := by
  rcases h : (splitLast path).2 with _ | ⟨c, rest⟩
  · exact Or.inl rfl
  · have stop := List.head_dropWhile_not (· ≠ '/') (l := dropIdle path.reverse)
      (by rw [show (dropIdle path.reverse).dropWhile (· ≠ '/') = c :: rest from h]; simp)
    simp only [show (dropIdle path.reverse).dropWhile (· ≠ '/') = c :: rest from h,
      List.head_cons] at stop
    exact Or.inr (by simpa using stop)

/-- The parent of a path is an early part of what stands before the last name, and that part ends at
a slash; or it is the root, or nothing. -/
theorem parent?_spec {path parent : List Char} (h : parent? path = some parent) :
    (∃ rest, (splitLast path).2.reverse = parent ++ '/' :: rest ∧ parent ≠ []) ∨
      (parent = ['/'] ∧ isAbsolute path = true) ∨ (parent = [] ∧ isAbsolute path = false) := by
  have unfolded : parent? path = if (splitLast path).1.isEmpty then none
      else some (if (dropIdle (splitLast path).2).isEmpty && isAbsolute path then ['/']
        else (dropIdle (splitLast path).2).reverse) := rfl
  rw [unfolded] at h
  replace h := (Option.ite_none_left_eq_some.mp h).2
  obtain ⟨gap, before, shape⟩ := dropIdle_spec (splitLast path).2
  generalize dropIdle (splitLast path).2 = kept at h before
  by_cases empty : kept = []
  · subst empty
    by_cases absolute : isAbsolute path = true
    · exact Or.inr (Or.inl ⟨by simpa [absolute] using h.symm, absolute⟩)
    · exact Or.inr (Or.inr ⟨by simpa [absolute] using h.symm, by simpa using absolute⟩)
  · have equal : parent = kept.reverse := by simpa [empty] using h.symm
    rcases shape with ⟨rfl, noSlash⟩ | ⟨rest, reversed⟩
    · rcases splitLast_before path with none | slash
      · exact absurd (before.symm.trans none) empty
      · exact absurd slash noSlash
    · refine Or.inl ⟨rest, ?_, ?_⟩
      · rw [before, List.reverse_append, reversed, equal]
      · rw [equal]
        simpa using empty

/-- What stands before the last name has the first names of the path. -/
theorem names_before_prefix (path : List Char) :
    names (splitLast path).2.reverse <+: names path := by
  obtain ⟨idle, whole⟩ := splitLast_spec path
  rcases splitLast_before path with none | slash
  · rw [none]
    exact ⟨names path, rfl⟩
  · obtain ⟨rest, shape⟩ := List.head?_eq_some_iff.mp slash
    rw [shape, List.reverse_cons, List.append_assoc, List.singleton_append] at whole
    rw [shape, List.reverse_cons, names_append_slash_nil]
    refine ⟨names ((splitLast path).1.reverse ++ idle), ?_⟩
    rw [← names_append_slash, ← whole]

theorem names_parent_prefix {path parent : List Char} (h : parent? path = some parent) :
    names parent <+: names (splitLast path).2.reverse := by
  rcases parent?_spec h with ⟨rest, shape, -⟩ | ⟨rfl, -⟩ | ⟨rfl, -⟩
  · rw [shape, names_append_slash]
    exact List.prefix_append _ _
  · rw [← List.nil_append ['/'], names_append_slash_nil]
    exact List.nil_prefix
  · exact List.nil_prefix

theorem isAbsolute_parent {path parent : List Char} (h : parent? path = some parent) :
    isAbsolute parent = isAbsolute path := by
  rcases parent?_spec h with ⟨rest, shape, nonempty⟩ | ⟨rfl, absolute⟩ | ⟨rfl, relative⟩
  · obtain ⟨idle, whole⟩ := splitLast_spec path
    obtain ⟨c, more, rfl⟩ := List.exists_cons_of_ne_nil nonempty
    rw [whole, shape]
    simp [isAbsolute]
  · rw [absolute]; rfl
  · rw [relative]; rfl

/-! ## Plain names -/

/-- Names that are all there are those between the slashes. -/
theorem intercalate_names {path : List Char} (plain : ∀ name ∈ path.splitOn '/', name ≠ []) :
    "/".intercalate (names path) = String.ofList path := by
  have kept : (path.splitOn '/').filter (!·.isEmpty) = path.splitOn '/' := by
    rw [List.filter_eq_self]
    intro name h
    simpa using plain name h
  have chars : (path.splitOn '/').map (String.toList ∘ String.ofList) = path.splitOn '/' := by
    rw [show String.toList ∘ String.ofList = id from funext fun _ => String.toList_ofList,
      List.map_id]
  refine String.toList_inj.mp ?_
  rw [String.toList_intercalate, names, kept, List.map_map, chars,
    String.toList_ofList (l := path)]
  exact @List.intercalate_splitOn _ path _ _ '/'

theorem ne_of_mem_reverse {name : List Char} {c : Char} (absent : c ∉ name) :
    ∀ x ∈ name.reverse, decide (x ≠ c) = true := by
  intro x h
  rw [decide_eq_true_iff]
  rintro rfl
  exact absent (List.mem_reverse.mp h)

theorem splitExtension_of_dotless {name : List Char} (noDot : '.' ∉ name) :
    splitExtension name = (name, none) := by
  have whole : name.reverse.takeWhile (· ≠ '.') = name.reverse := by
    have all := @List.takeWhile_append_of_pos _ _ _ [] (ne_of_mem_reverse noDot)
    rwa [List.takeWhile_nil, List.append_nil] at all
  unfold splitExtension
  simp only [whole, List.drop_length]

theorem splitExtension_of_ending {name ending : List Char} (nonempty : name ≠ [])
    (dotless : '.' ∉ ending) : splitExtension (name ++ '.' :: ending) = (name, some ending) := by
  obtain ⟨last, rest, reversed⟩ := List.exists_cons_of_ne_nil (List.reverse_ne_nil_iff.mpr nonempty)
  have shape : (name ++ '.' :: ending).reverse = ending.reverse ++ '.' :: last :: rest := by
    rw [List.reverse_append, List.reverse_cons, List.append_assoc, reversed]
    rfl
  have late : (ending.reverse ++ '.' :: last :: rest).takeWhile (· ≠ '.') = ending.reverse := by
    rw [List.takeWhile_append_of_pos (ne_of_mem_reverse dotless)]
    simp
  have stem : (last :: rest).reverse = name := by rw [← reversed, List.reverse_reverse]
  unfold splitExtension
  simp only [shape, late, List.drop_left, stem, List.reverse_reverse]

/-- A text that can be the name of a file. -/
structure IsName (name : List Char) : Prop where
  nonempty : name ≠ []
  noSlash : '/' ∉ name
  notDot : name ≠ ['.']
  notDots : name ≠ ['.', '.']

/-- A name with an ending is a name. -/
theorem isName_append {name ending : List Char} (nonempty : name ≠ []) (noSlash : '/' ∉ name)
    (someEnding : ending ≠ []) (slashless : '/' ∉ ending) : IsName (name ++ '.' :: ending) := by
  have length : 3 ≤ (name ++ '.' :: ending).length := by
    have := List.length_pos_iff.mpr nonempty
    have := List.length_pos_iff.mpr someEnding
    rw [List.length_append, List.length_cons]
    omega
  refine ⟨by simp, ?_, fun same => ?_, fun same => ?_⟩
  · rw [List.mem_append, List.mem_cons, not_or, not_or]
    exact ⟨noSlash, by decide, slashless⟩
  · simp [same] at length
  · simp [same] at length

theorem ne_dot_of_dotless {name : List Char} (noDot : '.' ∉ name) : name ≠ ['.'] := by
  rintro rfl
  simp at noDot

theorem ne_dots_of_dotless {name : List Char} (noDot : '.' ∉ name) : name ≠ ['.', '.'] := by
  rintro rfl
  simp at noDot

section Name

variable {front name : List Char} (isFront : IsFront front) (nonempty : name ≠ [])
  (noSlash : '/' ∉ name)

include nonempty noSlash

/-- Nothing is dropped from the end of a path whose last name counts. -/
theorem dropIdle_name (notDot : name ≠ ['.']) (before : List Char) :
    dropIdle (name.reverse ++ before) = name.reverse ++ before := by
  obtain ⟨last, rest, reversed⟩ := List.exists_cons_of_ne_nil (List.reverse_ne_nil_iff.mpr nonempty)
  have inside : ∀ c ∈ last :: rest, c ≠ '/' := by
    rintro c h rfl
    exact noSlash (List.mem_reverse.mp (reversed ▸ h))
  rw [reversed, List.cons_append, dropIdle]
  · exact fun _ h => inside last List.mem_cons_self (List.cons.inj h).1
  · intro more h
    obtain ⟨dot, slash⟩ := List.cons.inj h
    rcases rest with _ | ⟨c, rest⟩
    · refine notDot ?_
      rw [← name.reverse_reverse, reversed, dot]
      rfl
    · exact inside c (by simp) (List.cons.inj slash).1

theorem isTight_of_name (notDot : name ≠ ['.']) : IsTight (front ++ name) := by
  rw [IsTight, List.reverse_append]
  exact dropIdle_name nonempty noSlash notDot front.reverse

include isFront

/-- A last name that counts is split off as it is. -/
theorem splitLast_of_name (notDot : name ≠ ['.']) :
    splitLast (front ++ name) = (name.reverse, front.reverse) := by
  have tight : IsTight (front ++ name) := isTight_of_name nonempty noSlash notDot
  rw [splitLast, tight, List.reverse_append,
    List.takeWhile_append_of_pos (ne_of_mem_reverse noSlash),
    List.dropWhile_append_of_pos (ne_of_mem_reverse noSlash)]
  rcases isFront with rfl | ⟨start, rfl⟩ <;> simp

theorem fileName?_of_name (notDot : name ≠ ['.']) (notDots : name ≠ ['.', '.']) :
    fileName? (front ++ name) = some name := by
  simp [fileName?, splitLast_of_name isFront nonempty noSlash notDot, nonempty, notDot, notDots]

section

variable (noDot : '.' ∉ name)

include noDot

theorem splitLast_of_plain : splitLast (front ++ name) = (name.reverse, front.reverse) :=
  splitLast_of_name isFront nonempty noSlash (ne_dot_of_dotless noDot)

theorem fileName?_of_plain : fileName? (front ++ name) = some name :=
  fileName?_of_name isFront nonempty noSlash (ne_dot_of_dotless noDot) (ne_dots_of_dotless noDot)

theorem names_of_parent_of_plain {parent : List Char} (h : parent? (front ++ name) = some parent) :
    names parent <+: names front := by
  have early := names_parent_prefix h
  rwa [splitLast_of_plain isFront nonempty noSlash noDot, List.reverse_reverse] at early

/-- A last name without a dot has no ending. -/
theorem extension?_of_plain : extension? (front ++ name) = none := by
  rw [extension?, fileName?_of_plain isFront nonempty noSlash noDot, Option.bind_some,
    splitExtension_of_dotless noDot]

/-- A last name without a dot gets an ending by appending it. -/
theorem withExtension_of_plain (ending : List Char) :
    withExtension (front ++ name) ending = front ++ (name ++ '.' :: ending) := by
  have none := extension?_of_plain isFront nonempty noSlash noDot
  have split := splitLast_of_plain isFront nonempty noSlash noDot
  have file := fileName?_of_plain isFront nonempty noSlash noDot
  simp [withExtension, none, setExtension, file, split, splitExtension_of_dotless noDot]

end

/-- An ending that was appended to a last name is found again. -/
theorem extension?_of_ending {ending : List Char} (someEnding : ending ≠ [])
    (slashless : '/' ∉ ending) (dotless : '.' ∉ ending) :
    extension? (front ++ (name ++ '.' :: ending)) = some ending := by
  have isName := isName_append nonempty noSlash someEnding slashless
  rw [extension?,
    fileName?_of_name isFront isName.nonempty isName.noSlash isName.notDot isName.notDots,
    Option.bind_some, splitExtension_of_ending nonempty dotless]

end Name

end PinnedStore.Path
