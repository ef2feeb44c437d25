import PinnedStore.Proofs.Disk.Path
import PinnedStore.Proofs.Text.Packed
import PinnedStore.Storage.Directory

/-!
# Block paths tell digests apart

A path is made of the symbols of its digest and of separators at fixed places.  No symbol is a
separator, so taking the separators out gives the symbols back, and with them the digest.  So in one
store two digests never share a path, whatever the layout.  Which of the two separators a path is
written with makes no difference, and a path may even mix them.

In a directory the path of a block is also a walk through directories.  Below the base it always has
five names, none of them with a dot; that keeps blocks apart from the files that are still being
written, which end in one.

* `write_injective`: the path of a block is the path of no other block.
* `read_write`: reading the path of a block gives back its digest.
* `respell`, `read_respell`: however the path is spelled.
* `directoryNames_eq`, `dotless`, `directoryNames_injective`: the walk to a block in a directory.
-/

namespace PinnedStore.BlockPath

theorem plain_of_mem_symbols {features : Features} {d : Digest} {c : Char}
    (h : c ∈ symbols features d) : c ≠ '/' ∧ c ≠ '\\' ∧ c ≠ '.' := by
  rw [symbols] at h
  split at h
  · have plain : (Packed.base64Url.symbols.all fun c => c ≠ '/' ∧ c ≠ '\\' ∧ c ≠ '.') = true := by
      decide
    have inside := Packed.mem_symbols_of_mem_encode Packed.proper_base64Url h
    exact of_decide_eq_true (List.all_eq_true.mp plain c inside)
  · have plain : (Packed.crockford32.symbols.all fun c => c ≠ '/' ∧ c ≠ '\\' ∧ c ≠ '.') = true := by
      decide
    have inside := Packed.mem_symbols_of_mem_encode Packed.proper_crockford32 h
    exact of_decide_eq_true (List.all_eq_true.mp plain c inside)

theorem symbols_ne_nil (features : Features) (d : Digest) : symbols features d ≠ [] := by
  have written : ∀ {alphabet : Packed.Alphabet}, alphabet.Proper →
      Packed.encode alphabet d.bytes ≠ [] := by
    intro alphabet proper none
    obtain ⟨padding, -, length⟩ := Packed.length_encode proper d.bytes
    rw [none, d.length_bytes, List.length_nil] at length
    omega
  rw [symbols]
  split
  · exact written Packed.proper_base64Url
  · exact written Packed.proper_crockford32

theorem symbols_injective (features : Features) : Function.Injective (symbols features) := by
  intro a b same
  rw [symbols, symbols] at same
  split at same
  · exact Digest.ext (Packed.encode_injective Packed.proper_base64Url same)
  · exact Digest.ext (Packed.encode_injective Packed.proper_crockford32 same)

/-! ## Without separators -/

theorem filter_fanOut (levels : Nat) (chars : List Char) :
    (fanOut levels chars).filter (· ≠ '/') = chars.filter (· ≠ '/') := by
  induction levels generalizing chars with
  | zero => rfl
  | succ levels ih =>
    rw [fanOut, List.filter_append, List.filter_cons_of_neg (by simp), ih, ← List.filter_append,
      List.take_append_drop]

/-- The name of a block without its separators is its digest in symbols. -/
theorem filter_nameChars (features : Features) (d : Digest) :
    (nameChars features d).filter (· ≠ '/') = symbols features d := by
  have plain : (symbols features d).filter (· ≠ '/') = symbols features d := by
    rw [List.filter_eq_self]
    intro c h
    simpa using (plain_of_mem_symbols h).1
  simp only [nameChars]
  split
  · rw [filter_fanOut, plain]
  · exact plain

/-- The path of a block is the path of no other block. -/
theorem write_injective (features : Features) : Function.Injective (write features) := by
  intro a b same
  have chars : top ++ nameChars features a = top ++ nameChars features b :=
    String.ofList_injective same
  have names := congrArg (List.filter (· ≠ '/')) (List.append_cancel_left chars)
  rw [filter_nameChars, filter_nameChars] at names
  exact symbols_injective features names

theorem toList_write (features : Features) (d : Digest) :
    (write features d).toList = top ++ nameChars features d := by
  simp [write]

/-- Reading the path of a block gives back its digest. -/
theorem read_write (features : Features) (d : Digest) :
    read features (write features d) = .ok (some d) := by
  have straight : (top ++ nameChars features d).map (fun c => if c = '\\' then '/' else c)
      = top ++ nameChars features d := by
    refine (List.map_congr_left fun c inside => ?_).trans (List.map_id _)
    refine if_neg fun backslash => ?_
    subst backslash
    rcases List.mem_append.mp inside with inTop | inName
    · revert inTop
      decide
    · have symbol : '\\' ∈ symbols features d := by
        rw [← filter_nameChars]
        exact List.mem_filter.mpr ⟨inName, by decide⟩
      exact (plain_of_mem_symbols symbol).2.1 rfl
  have name : readName? (write features d).toList = some (symbols features d) := by
    rw [toList_write, readName?, straight]
    simp only [List.isPrefixOf_iff_prefix, List.prefix_append, if_true, List.drop_left,
      filter_nameChars]
  have digest : Digest.ofBytes d.bytes = .ok d := Digest.ofBytes_bytes d
  have bytes : bytesOfName features (symbols features d) = .ok (some d.bytes) := by
    rw [bytesOfName, symbols]
    split
    · obtain ⟨padding, -, decoded⟩ := Packed.decode?_encode Packed.proper_base64Url d.bytes
      simp [decoded]
    · obtain ⟨padding, -, decoded⟩ := Packed.decode?_encode Packed.proper_crockford32 d.bytes
      simp [decoded]
  obtain ⟨first, rest, shape⟩ := List.exists_cons_of_ne_nil (symbols_ne_nil features d)
  rw [shape] at name bytes
  simp only [read, name, bytes, bind, Except.bind, digest]
  rfl

/-! ## Other spellings -/

/-- A path as a platform with backslashes may write it, or any mixture of the two: the slashes at
the chosen places are replaced. -/
def respell (chosen : Nat → Bool) (path : String) : String :=
  String.ofList (path.toList.mapIdx fun place c => if c = '/' ∧ chosen place then '\\' else c)

/-- What a path is read as depends on where its separators are, not on which of the two they are. -/
theorem readName?_congr {path path' : List Char}
    (same : path.map (fun c => if c = '\\' then '/' else c)
      = path'.map fun c => if c = '\\' then '/' else c) : readName? path = readName? path' := by
  simp only [readName?, same]

/-- A path is read alike however it is spelled. -/
theorem read_respell (features : Features) (chosen : Nat → Bool) (path : String) :
    read features (respell chosen path) = read features path := by
  have turned : ∀ place c, (if (if c = '/' ∧ chosen place then '\\' else c) = '\\' then '/'
      else if c = '/' ∧ chosen place then '\\' else c) = if c = '\\' then '/' else c := by
    intro place c
    by_cases slash : c = '/' ∧ chosen place
    · rw [if_pos slash, if_pos rfl, slash.1]
      rfl
    · rw [if_neg slash]
  have straight : (respell chosen path).toList.map (fun c => if c = '\\' then '/' else c)
      = path.toList.map fun c => if c = '\\' then '/' else c := by
    refine List.ext_getElem (by simp [respell]) fun place _ _ => ?_
    simp only [respell, String.toList_ofList, List.getElem_map, List.getElem_mapIdx, turned]
  rw [read, read, readName?_congr straight]

/-- In every layout the path of a block is read as its digest, as it is written and with any of its
slashes turned round; so no two blocks share a path. -/
theorem read_write_respelled (features : Features) :
    (∀ d, read features (write features d) = .ok (some d)) ∧
    (∀ d chosen, read features (respell chosen (write features d)) = .ok (some d)) ∧
    Function.Injective (write features) := by
  refine ⟨read_write features, fun d chosen => ?_, fun d d' same => ?_⟩
  · rw [read_respell, read_write]
  · have reads : read features (write features d) = read features (write features d') :=
      congrArg (read features) same
    rw [read_write, read_write] at reads
    exact Option.some.inj (Except.ok.inj reads)

/-! ## In a directory -/

/-- The names of a block's path below the base of a directory. -/
def directoryNames (d : Digest) : List String :=
  Path.names (write Directory.features d).toList

/-- The directories on the way to a block, as text. -/
def stem (d : Digest) : List Char :=
  let chars := symbols Directory.features d
  top ++ (chars.take 2 ++ '/' :: ((chars.drop 2).take 2 ++ '/' :: ((chars.drop 4).take 2 ++ ['/'])))

/-- The name of the file of a block. -/
def fileName (d : Digest) : List Char :=
  (symbols Directory.features d).drop 6

theorem write_eq (d : Digest) : (write Directory.features d).toList = stem d ++ fileName d := by
  simp [toList_write, nameChars, Directory.features, splits, fanOut, stem, fileName, List.drop_drop]

theorem length_symbols (d : Digest) : (symbols Directory.features d).length = 52 := by
  obtain ⟨padding, small, equal⟩ := Packed.length_encode Packed.proper_crockford32 d.bytes
  rw [d.length_bytes] at equal
  change (Packed.encode Packed.crockford32 d.bytes).length = 52
  simp only [Packed.crockford32] at small equal ⊢
  omega

theorem isFront_stem (d : Digest) : ∃ start, stem d = start ++ ['/'] :=
  ⟨top ++ ((symbols Directory.features d).take 2 ++ '/' ::
    (((symbols Directory.features d).drop 2).take 2 ++ '/' ::
      (((symbols Directory.features d).drop 4).take 2))), by simp [stem]⟩

theorem fileName_ne_nil (d : Digest) : fileName d ≠ [] := by
  intro none
  have := congrArg List.length none
  rw [fileName, List.length_drop, length_symbols] at this
  simp at this

theorem slash_notMem_fileName (d : Digest) : '/' ∉ fileName d :=
  fun h => (plain_of_mem_symbols (List.mem_of_mem_drop h)).1 rfl

theorem dot_notMem_fileName (d : Digest) : '.' ∉ fileName d :=
  fun h => (plain_of_mem_symbols (List.mem_of_mem_drop h)).2.2 rfl

theorem isAbsolute_write (d : Digest) :
    Path.isAbsolute (write Directory.features d).toList = false := by
  rw [toList_write]
  rfl

theorem directoryNames_eq (d : Digest) :
    directoryNames d = Path.names (stem d) ++ [String.ofList (fileName d)] := by
  rw [directoryNames, write_eq, Path.names_isFront_append (Or.inr (isFront_stem d)),
    Path.names_of_plain (fileName_ne_nil d) (slash_notMem_fileName d)]

/-- Two symbols of a block. -/
def pair (skip : Nat) (d : Digest) : List Char :=
  ((symbols Directory.features d).drop skip).take 2

theorem pair_ne_nil {skip : Nat} (early : skip ≤ 4) (d : Digest) : pair skip d ≠ [] := by
  intro none
  have length := congrArg List.length none
  rw [pair, List.length_take, List.length_drop, length_symbols] at length
  simp at length
  omega

theorem slash_notMem_pair (skip : Nat) (d : Digest) : '/' ∉ pair skip d :=
  fun h => (plain_of_mem_symbols (List.mem_of_mem_drop (List.mem_of_mem_take h))).1 rfl

/-- The names on the way to a block, and one name more. -/
theorem splitOn_stem_append (d : Digest) {last : List Char} (plain : '/' ∉ last) :
    (stem d ++ last).splitOn '/' = ["block3".toList, pair 0 d, pair 2 d, pair 4 d, last] := by
  have joined : ∀ a b c e f : List Char, ['/'].intercalate [a, b, c, e, f]
      = a ++ '/' :: (b ++ '/' :: (c ++ '/' :: (e ++ '/' :: f))) := by
    intro a b c e f
    simp [List.intercalate]
  have shape : stem d ++ last
      = ['/'].intercalate ["block3".toList, pair 0 d, pair 2 d, pair 4 d, last] := by
    rw [joined, stem, show top = "block3".toList ++ ['/'] from rfl]
    simp only [pair, List.drop_zero, List.append_assoc, List.cons_append, List.nil_append]
  rw [shape, List.splitOn_intercalate '/' ?_ (by simp)]
  intro part h
  simp only [List.mem_cons, List.not_mem_nil, or_false] at h
  rcases h with rfl | rfl | rfl | rfl | rfl
  · decide
  · exact slash_notMem_pair 0 d
  · exact slash_notMem_pair 2 d
  · exact slash_notMem_pair 4 d
  · exact plain

theorem splitOn_stem_append_ne_nil (d : Digest) {last : List Char} (plain : '/' ∉ last)
    (nonempty : last ≠ []) : ∀ name ∈ (stem d ++ last).splitOn '/', name ≠ [] := by
  intro name h
  rw [splitOn_stem_append d plain] at h
  simp only [List.mem_cons, List.not_mem_nil, or_false] at h
  rcases h with rfl | rfl | rfl | rfl | rfl
  · decide
  · exact pair_ne_nil (by decide) d
  · exact pair_ne_nil (by decide) d
  · exact pair_ne_nil (by decide) d
  · exact nonempty

theorem length_names_stem (d : Digest) : (Path.names (stem d)).length = 4 := by
  have parts := splitOn_stem_append d (@List.not_mem_nil Char '/')
  rw [List.append_nil] at parts
  simp [Path.names, parts, pair_ne_nil]

@[simp] theorem length_directoryNames (d : Digest) : (directoryNames d).length = 5 := by
  rw [directoryNames_eq, List.length_append, length_names_stem]
  rfl

theorem directoryNames_ne_nil (d : Digest) : directoryNames d ≠ [] := by
  rw [← List.length_pos_iff, length_directoryNames]
  decide

theorem dot_notMem_write (d : Digest) : '.' ∉ (write Directory.features d).toList := by
  intro h
  rw [toList_write] at h
  rcases List.mem_append.mp h with inTop | inName
  · revert inTop
    decide
  · have : '.' ∈ symbols Directory.features d := by
      rw [← filter_nameChars]
      exact List.mem_filter.mpr ⟨inName, by decide⟩
    exact (plain_of_mem_symbols this).2.2 rfl

/-- No name on the way to a block has a dot. -/
theorem dotless {d : Digest} {name : String} (h : name ∈ directoryNames d) : '.' ∉ name.toList :=
  fun inside => dot_notMem_write d (Path.mem_of_mem_names h inside)

theorem directoryNames_injective : Function.Injective directoryNames := by
  intro a b same
  have chars := congrArg (List.flatMap String.toList) same
  simp only [directoryNames, Path.flatMap_names, toList_write, List.filter_append,
    filter_nameChars] at chars
  exact symbols_injective _ (List.append_cancel_left chars)

/-- The path of a block is the names on the way to it, with slashes between them. -/
theorem intercalate_directoryNames (d : Digest) :
    "/".intercalate (directoryNames d) = write Directory.features d := by
  have plain := splitOn_stem_append_ne_nil d (slash_notMem_fileName d) (fileName_ne_nil d)
  rw [← write_eq] at plain
  rw [directoryNames, Path.intercalate_names plain, String.ofList_toList]

/-- The path of the file that is written before it takes the place of a block. -/
def stagedPath (d : Digest) : List Char :=
  stem d ++ (fileName d ++ '.' :: Directory.staging)

theorem slash_notMem_stagedName (d : Digest) : '/' ∉ fileName d ++ '.' :: Directory.staging := by
  rw [List.mem_append, not_or]
  exact ⟨slash_notMem_fileName d, by decide⟩

theorem names_stagedPath (d : Digest) : Path.names (stagedPath d)
    = Path.names (stem d) ++ [String.ofList (fileName d ++ '.' :: Directory.staging)] := by
  rw [stagedPath, Path.names_isFront_append (Or.inr (isFront_stem d)),
    Path.names_of_plain (by simp) (slash_notMem_stagedName d)]

theorem intercalate_stagedPath (d : Digest) :
    "/".intercalate (Path.names (stagedPath d)) = String.ofList (stagedPath d) :=
  Path.intercalate_names (splitOn_stem_append_ne_nil d (slash_notMem_stagedName d) (by simp))

/-- A file that is being written is told from a block by its path. -/
theorem isStaging_stagedPath (d : Digest) : Directory.isStaging (stagedPath d) = true := by
  have ending : Path.extension? (stem d ++ (fileName d ++ '.' :: Directory.staging))
      = some Directory.staging :=
    Path.extension?_of_ending (Or.inr (isFront_stem d)) (fileName_ne_nil d)
      (slash_notMem_fileName d) (by decide) (by decide) (by decide)
  rw [Directory.isStaging, stagedPath, ending]
  decide

theorem isStaging_write (d : Digest) :
    Directory.isStaging (write Directory.features d).toList = false := by
  have ending := Path.extension?_of_plain (Or.inr (isFront_stem d)) (fileName_ne_nil d)
    (slash_notMem_fileName d) (dot_notMem_fileName d)
  rw [Directory.isStaging, write_eq, ending]
  decide

/-- The path of a block never leads out of a directory. -/
theorem escapes_write (d : Digest) :
    Directory.escapes (write Directory.features d).toList = false := by
  rw [Directory.escapes, isAbsolute_write, Bool.false_or, List.contains_eq_mem,
    decide_eq_false_iff_not]
  intro climbs
  have inside : '.' ∈ (((write Directory.features d).toList.map
      fun c => if c = '\\' then '/' else c).splitOn '/').flatten :=
    List.mem_flatten.mpr ⟨_, climbs, by decide⟩
  rw [Path.flatten_splitOn] at inside
  obtain ⟨c, present, same⟩ := List.mem_map.mp (List.mem_filter.mp inside).1
  split at same
  · exact absurd same (by decide)
  · exact dot_notMem_write d (same ▸ present)

end PinnedStore.BlockPath
