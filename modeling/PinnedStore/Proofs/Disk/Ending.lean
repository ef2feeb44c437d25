import Mathlib.Data.List.TakeWhile
import PinnedStore.Proofs.Disk.Path

/-!
# Paths with another ending

A path gets another ending by two cuts.  First as many characters as the old ending has are taken
off the end of the *text*, and then whatever is left as last name loses its ending and gets the new
one.  The two cuts need not fall on the same place: with idle characters behind the last name the
first cut takes these instead, in whole or in part.  It makes no difference, since the second cut is
through the last dot of the last name in every case --- but for a name such as `..old`, of which the
first cut may leave two dots, and two dots are no name.

So a path with another ending is what stands before the last name and one more text, in which
nothing is left of what was idle, and which does not depend on what stands before it.

* `Idle`: what does not count at the end of a path.
* `splitExtension_cases`: a name is its stem, a dot, and its ending.
* `fileName?_cases`: a path has a last name or none.
* `withExtension_of_isName`: the path with another ending.
-/

namespace PinnedStore.Path

variable {path front name idle : List Char}

/-! ## What is idle -/

/-- A text that does not count at the end of a path, backwards. -/
inductive Idle : List Char → Prop
  | nil : Idle []
  | slash {rest : List Char} (isIdle : Idle rest) : Idle ('/' :: rest)
  | dot {rest : List Char} (isIdle : Idle rest) : Idle ('.' :: '/' :: rest)

theorem exists_idle (path : List Char) : ∃ idle, Idle idle ∧ path = idle ++ dropIdle path := by
  fun_induction dropIdle path with
  | case1 rest ih =>
    obtain ⟨idle, isIdle, equal⟩ := ih
    exact ⟨'/' :: idle, isIdle.slash, by rw [List.cons_append, ← equal]⟩
  | case2 rest ih =>
    obtain ⟨idle, isIdle, equal⟩ := ih
    exact ⟨'.' :: '/' :: idle, isIdle.dot, by rw [List.cons_append, List.cons_append, ← equal]⟩
  | case3 path noSlash noDot => exact ⟨[], .nil, rfl⟩

namespace Idle

/-- What is idle is dropped. -/
theorem dropIdle_append (isIdle : Idle idle) (rest : List Char) :
    dropIdle (idle ++ rest) = dropIdle rest := by
  induction isIdle with
  | nil => rfl
  | slash _ ih => exact ih
  | dot _ ih => exact ih

theorem drop (isIdle : Idle idle) (count : Nat) : Idle (idle.drop count) := by
  induction isIdle generalizing count with
  | nil =>
    rw [List.drop_nil]
    exact .nil
  | slash isIdle ih =>
    rcases count with _ | count
    · exact isIdle.slash
    · exact ih count
  | dot isIdle ih =>
    rcases count with _ | _ | count
    · exact isIdle.dot
    · exact isIdle.slash
    · exact ih count

theorem splitLast_append (isIdle : Idle idle) (path : List Char) :
    splitLast (path ++ idle.reverse) = splitLast path := by
  rw [splitLast, splitLast, List.reverse_append, List.reverse_reverse, isIdle.dropIdle_append]

end Idle

/-! ## Names -/

theorem fileName?_eq_some : fileName? path = some name ↔
    (splitLast path).1.reverse = name ∧ name ≠ [] ∧ name ≠ ['.'] ∧ name ≠ ['.', '.'] := by
  rw [fileName?, Option.ite_none_left_eq_some]
  simp only [Option.some_inj, Bool.or_eq_true, List.isEmpty_iff, beq_iff_eq, not_or]
  constructor
  · rintro ⟨⟨⟨nonempty, notDot⟩, notDots⟩, rfl⟩
    exact ⟨rfl, nonempty, notDot, notDots⟩
  · rintro ⟨rfl, nonempty, notDot, notDots⟩
    exact ⟨⟨⟨nonempty, notDot⟩, notDots⟩, rfl⟩

/-- A path has no last name, or it is what stands before its last name, that name, and something
idle. -/
theorem fileName?_cases (path : List Char) : fileName? path = none ∨
    ∃ front name idle, path = front ++ name ++ idle.reverse ∧ IsFront front ∧ IsName name ∧
      Idle idle := by
  rcases file : fileName? path with _ | name
  · exact Or.inl rfl
  obtain ⟨isLast, nonempty, notDot, notDots⟩ := fileName?_eq_some.mp file
  obtain ⟨idle, isIdle, backwards⟩ := exists_idle path.reverse
  have pieces : (splitLast path).1 ++ (splitLast path).2 = dropIdle path.reverse :=
    List.takeWhile_append_dropWhile
  refine Or.inr ⟨(splitLast path).2.reverse, name, idle, ?_, ?_, ⟨nonempty, ?_, notDot, notDots⟩,
    isIdle⟩
  · rw [← isLast, ← List.reverse_append, pieces, ← List.reverse_append, ← backwards,
      List.reverse_reverse]
  · rcases splitLast_before path with none | slash
    · exact Or.inl (by rw [none]; rfl)
    · obtain ⟨rest, shape⟩ := List.head?_eq_some_iff.mp slash
      exact Or.inr ⟨rest.reverse, by rw [shape, List.reverse_cons]⟩
  · rw [← isLast, List.mem_reverse]
    intro inside
    have := List.mem_takeWhile_imp inside
    simp at this

/-- A name is its stem, a dot, and its ending; or it has no ending and is its own stem. -/
theorem splitExtension_cases (name : List Char) : splitExtension name = (name, none) ∨
    ∃ stem old, splitExtension name = (stem, some old) ∧ name = stem ++ '.' :: old ∧ stem ≠ [] ∧
      '.' ∉ old := by
  by_cases dotted : '.' ∈ name
  · -- The name is cut at its last dot.
    obtain ⟨backwards, before, shape, noDot⟩ :=
      List.eq_append_cons_of_mem (List.mem_reverse.mpr dotted)
    have whole : name = before.reverse ++ '.' :: backwards.reverse := by
      rw [← name.reverse_reverse, shape]
      simp
    rcases eq_or_ne before [] with rfl | some
    · refine Or.inl ?_
      have late : (backwards ++ ['.']).takeWhile (· ≠ '.') = backwards := by
        rw [List.takeWhile_append_of_pos]
        · simp
        · intro c inside
          rw [decide_eq_true_iff]
          rintro rfl
          exact noDot inside
      unfold splitExtension
      simp only [shape, late, List.drop_left]
    · have nonempty : before.reverse ≠ [] := List.reverse_ne_nil_iff.mpr some
      have dotless : '.' ∉ backwards.reverse := fun inside => noDot (List.mem_reverse.mp inside)
      exact Or.inr ⟨_, _, whole ▸ splitExtension_of_ending nonempty dotless, whole,
        nonempty, dotless⟩
  · exact Or.inl (splitExtension_of_dotless dotted)

theorem stem_ne_nil (isName : IsName name) : (splitExtension name).1 ≠ [] := by
  rcases splitExtension_cases name with split | ⟨stem, old, split, -, some, -⟩
  · rw [split]
    exact isName.nonempty
  · rw [split]
    exact some

theorem slash_notMem_stem (noSlash : '/' ∉ name) : '/' ∉ (splitExtension name).1 := by
  rcases splitExtension_cases name with split | ⟨stem, old, split, whole, -, -⟩
  · rw [split]
    exact noSlash
  · rw [split]
    intro inside
    exact noSlash (whole ▸ List.mem_append_left _ inside)

/-! ## Another ending -/

theorem withExtension_of_nameless (nameless : fileName? path = none) (ending : List Char) :
    withExtension path ending = path := by
  rw [withExtension, extension?, nameless, Option.bind_none]
  dsimp only
  rw [setExtension, nameless]

/-! ### The first cut -/

/-- Few characters are taken off what is idle. -/
theorem take_of_few {old : List Char} (few : old.length ≤ idle.length) (path : List Char) :
    (path ++ idle.reverse).take ((path ++ idle.reverse).length - old.length)
      = path ++ (idle.drop old.length).reverse := by
  rw [List.reverse_drop, List.length_append, List.length_reverse, Nat.add_sub_assoc few,
    List.take_length_add_append]

/-- Many characters are taken off the old ending, after all that is idle. -/
theorem take_of_many {stem old : List Char} (many : idle.length ≤ old.length) (front : List Char) :
    (front ++ (stem ++ '.' :: old) ++ idle.reverse).take
        ((front ++ (stem ++ '.' :: old) ++ idle.reverse).length - old.length)
      = front ++ (stem ++ '.' :: old.take idle.length) := by
  have parts : front ++ (stem ++ '.' :: old) ++ idle.reverse
      = (front ++ (stem ++ ['.'])) ++ (old ++ idle.reverse) := by
    simp
  have length : (front ++ (stem ++ '.' :: old) ++ idle.reverse).length - old.length
      = (front ++ (stem ++ ['.'])).length + idle.length := by
    rw [parts]
    simp only [List.length_append, List.length_reverse]
    omega
  rw [length, parts, List.take_length_add_append, List.take_append_of_le_length many]
  simp

/-- What is left of the name is a name, or two dots. -/
theorem isName_of_take {stem old : List Char} (isName : IsName (stem ++ '.' :: old))
    (someStem : stem ≠ []) (count : Nat) :
    IsName (stem ++ '.' :: old.take count) ∨
      (stem = ['.'] ∧ stem ++ '.' :: old.take count = ['.', '.']) := by
  rcases eq_or_ne (stem ++ '.' :: old.take count) ['.', '.'] with dots | notDots
  · refine Or.inr ⟨?_, dots⟩
    have two := congrArg List.length dots
    have := List.length_pos_iff.mpr someStem
    have one : stem.length = ['.'].length := by
      simp only [List.length_append, List.length_cons, List.length_nil] at two ⊢
      omega
    have split : stem ++ '.' :: old.take count = ['.'] ++ ['.'] := dots
    exact (List.append_inj split one).1
  · refine Or.inl ⟨by simp, fun inside => isName.noSlash ?_, ?_, notDots⟩
    · simp only [List.mem_append, List.mem_cons] at inside ⊢
      exact inside.imp_right (Or.imp_right List.mem_of_mem_take)
    · rw [Ne, List.append_eq_singleton_iff]
      simp [someStem]

/-! ### Both cuts -/

/-- Two dots are no name, and get no ending. -/
theorem setExtension_dots (isFront : IsFront front) (ending : List Char) :
    setExtension (front ++ ['.', '.']) ending = front ++ ['.', '.'] := by
  have split : splitLast (front ++ ['.', '.']) = (['.', '.'], front.reverse) :=
    splitLast_of_name isFront (by decide) (by decide) (by decide)
  rw [setExtension, fileName?, split]
  rfl

section Name

variable (isName : IsName name) (isIdle : Idle idle)

include isName isIdle

theorem splitLast_of_isName (isFront : IsFront front) :
    splitLast (front ++ name ++ idle.reverse) = (name.reverse, front.reverse) := by
  rw [isIdle.splitLast_append]
  exact splitLast_of_name isFront isName.nonempty isName.noSlash isName.notDot

theorem fileName?_of_isName (isFront : IsFront front) :
    fileName? (front ++ name ++ idle.reverse) = some name := by
  rw [fileName?_eq_some, splitLast_of_isName isName isIdle isFront, List.reverse_reverse]
  exact ⟨rfl, isName.nonempty, isName.notDot, isName.notDots⟩

theorem setExtension_of_isName (isFront : IsFront front) (ending : List Char) :
    setExtension (front ++ name ++ idle.reverse) ending
      = front ++ ((splitExtension name).1 ++ '.' :: ending) := by
  rw [setExtension, fileName?_of_isName isName isIdle isFront]
  dsimp only
  rw [splitLast_of_isName isName isIdle isFront, List.reverse_reverse, List.append_assoc]

/-- A path with another ending is what stands before the last name, and in most cases the stem of
that name, a dot, and the ending.  It may also be cut down to two dots. -/
theorem withExtension_of_isName (ending : List Char) :
    ∃ last, (last = (splitExtension name).1 ++ '.' :: ending
        ∨ ((splitExtension name).1 = ['.'] ∧ last = ['.', '.'])) ∧
      ∀ front, IsFront front → withExtension (front ++ name ++ idle.reverse) ending
        = front ++ last := by
  have file : ∀ {front}, IsFront front → fileName? (front ++ name ++ idle.reverse) = some name :=
    fileName?_of_isName isName isIdle
  rcases splitExtension_cases name with split | ⟨stem, old, split, whole, someStem, dotless⟩
  · refine ⟨_, Or.inl rfl, fun front isFront => ?_⟩
    rw [withExtension, extension?, file isFront, Option.bind_some, split]
    dsimp only
    rw [setExtension_of_isName isName isIdle isFront, split]
  have unfolded : ∀ {front}, IsFront front → withExtension (front ++ name ++ idle.reverse) ending
      = setExtension ((front ++ name ++ idle.reverse).take
          ((front ++ name ++ idle.reverse).length - old.length)) ending := by
    intro front isFront
    rw [withExtension, extension?, file isFront, Option.bind_some, split]
  rcases Nat.le_total old.length idle.length with few | many
  · refine ⟨_, Or.inl rfl, fun front isFront => ?_⟩
    rw [unfolded isFront, take_of_few few, setExtension_of_isName isName (isIdle.drop _) isFront]
  rw [split]
  rcases isName_of_take (whole ▸ isName) someStem idle.length with isName' | ⟨isDot, dots⟩
  · refine ⟨stem ++ '.' :: ending, Or.inl rfl, fun front isFront => ?_⟩
    have dotless' : '.' ∉ old.take idle.length :=
      fun inside => dotless (List.mem_of_mem_take inside)
    have shortened := setExtension_of_isName isName' .nil isFront ending
    rw [List.reverse_nil, List.append_nil, splitExtension_of_ending someStem dotless'] at shortened
    rw [unfolded isFront, whole, take_of_many many, shortened]
  · refine ⟨['.', '.'], Or.inr ⟨isDot, rfl⟩, fun front isFront => ?_⟩
    rw [unfolded isFront, whole, take_of_many many, dots, setExtension_dots isFront]

end Name

/-! ### Names -/

theorem names_append_idle {idle : List Char} (isIdle : Idle idle) (path : List Char) :
    ∃ dots, names (path ++ idle.reverse) = names path ++ List.replicate dots "." := by
  induction isIdle with
  | nil => exact ⟨0, by simp⟩
  | slash _ ih =>
    obtain ⟨dots, named⟩ := ih
    refine ⟨dots, ?_⟩
    rw [List.reverse_cons, ← List.append_assoc, names_append_slash_nil, named]
  | @dot rest _ ih =>
    obtain ⟨dots, named⟩ := ih
    have shape : path ++ ('.' :: '/' :: rest).reverse = path ++ rest.reverse ++ '/' :: ['.'] := by
      simp
    have dot : names ['.'] = ["."] := names_of_plain (by simp) (by decide)
    refine ⟨dots + 1, ?_⟩
    rw [shape, names_append_slash, named, dot, List.append_assoc, List.replicate_succ']

/-- Whether a path is absolute is decided before the first name. -/
theorem isAbsolute_append (nonempty : name ≠ []) (noSlash : '/' ∉ name) (rest : List Char) :
    isAbsolute (front ++ (name ++ rest)) = isAbsolute front := by
  rcases front with _ | ⟨c, front⟩
  · obtain ⟨c, more, rfl⟩ := List.exists_cons_of_ne_nil nonempty
    have plain : c ≠ '/' := fun slash => noSlash (slash ▸ List.mem_cons_self)
    simp [isAbsolute, plain]
  · rfl

/-- The names of a path with another ending. -/
theorem names_withExtension (path : List Char) {ending : List Char} (plain : '/' ∉ ending) :
    withExtension path ending = path ∨ ∃ above name dots last,
      names path = above ++ String.ofList name :: List.replicate dots "." ∧ IsName name ∧
      names (withExtension path ending) = above ++ [String.ofList last] ∧
      isAbsolute (withExtension path ending) = isAbsolute path ∧
      (last = (splitExtension name).1 ++ '.' :: ending ∨ last = ['.', '.']) := by
  rcases fileName?_cases path with nameless | ⟨front, name, idle, rfl, isFront, isName, isIdle⟩
  · exact Or.inl (withExtension_of_nameless nameless ending)
  obtain ⟨last, kind, shape⟩ := withExtension_of_isName isName isIdle ending
  have some : last ≠ [] := by
    rcases kind with rfl | ⟨-, rfl⟩ <;> simp
  have noSlash : '/' ∉ last := by
    rcases kind with rfl | ⟨-, rfl⟩
    · rw [List.mem_append, List.mem_cons, not_or, not_or]
      exact ⟨slash_notMem_stem isName.noSlash, by decide, plain⟩
    · decide
  obtain ⟨dots, named⟩ := names_append_idle isIdle (front ++ name)
  refine Or.inr ⟨names front, name, dots, last, ?_, isName, ?_, ?_, kind.imp_right And.right⟩
  · rw [named, names_isFront_append isFront, names_of_plain isName.nonempty isName.noSlash,
      List.append_assoc, List.singleton_append]
  · rw [shape front isFront, names_isFront_append isFront, names_of_plain some noSlash]
  · rw [shape front isFront, List.append_assoc, isAbsolute_append isName.nonempty isName.noSlash,
      ← List.append_nil last, isAbsolute_append some noSlash]

end PinnedStore.Path
