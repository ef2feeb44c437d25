import PinnedStore.Proofs.Storage.BlockPath
import PinnedStore.Proofs.Text.Unpacking

/-!
# What a path is read as

A path that is not under the common directory is no block, and is told to be none.  What is said of
the other paths depends on the alphabet.  In base 32 a name that stands for no bytes is a name
somebody else has chosen, and the path is passed over.  In base 64 such a name is a fault of the
store: reading the path fails, and since a name that can be read is one that has been written, so
does every name that is not the text of some bytes.  That bytes are not thirty-two is never a fault.

So which answer a path gets can be said without following the reader: by its name, and by the bytes
the name spells.

* `HasName`: the name of a path under the common directory.
* `Spells`: the bytes a name stands for.
* `read_eq_some_iff`, `read_eq_error_iff`, `read_eq_none_iff`: the three answers.
-/

namespace PinnedStore.BlockPath

variable {features : Features} {chars : List Char} {bytes : Bytes} {path : String} {d : Digest}

/-- What follows the common directory in a path, less the separators.  Either slash separates. -/
def HasName (path : String) (chars : List Char) : Prop :=
  ∃ rest, path.toList.map (fun c => if c = '\\' then '/' else c) = top ++ rest ∧
    rest.filter (· ≠ '/') = chars

/-- The name stands for these bytes.  In base 64 bytes have one spelling.  In base 32 a name has the
bits of the bytes and less than a symbol more, whatever they are. -/
def Spells (features : Features) (chars : List Char) (bytes : Bytes) : Prop :=
  if features.caseSensitive then chars = Packed.encode Packed.base64Url bytes
  else ∃ left, left.length < Packed.crockford32.width ∧
    Packed.bitsOfSymbols? Packed.crockford32 chars = some (Packed.bitsOfBytes bytes ++ left)

/-! ## Names -/

theorem readName?_eq_some : readName? path.toList = some chars ↔ HasName path chars := by
  rw [readName?, HasName]
  split
  · next under =>
    obtain ⟨rest, split⟩ := List.isPrefixOf_iff_prefix.mp under
    rw [← split, List.drop_left, Option.some_inj]
    constructor
    · intro name
      exact ⟨rest, rfl, name⟩
    · rintro ⟨rest', same, name⟩
      rw [List.append_cancel_left same]
      exact name
  · next outside =>
    refine iff_of_false (by simp) ?_
    rintro ⟨rest, split, -⟩
    exact outside (List.isPrefixOf_iff_prefix.mpr ⟨rest, split.symm⟩)

/-! ## Bytes -/

theorem spells_iff_of_caseSensitive (sensitive : features.caseSensitive = true) :
    Spells features chars bytes ↔
      ∃ left, Packed.decode? Packed.base64Url chars = some (bytes, left) ∧ left.any id = false := by
  rw [Spells, if_pos sensitive, Packed.exists_strict_iff Packed.proper_base64Url]

theorem spells_iff_of_caseInsensitive (insensitive : features.caseSensitive = false) :
    Spells features chars bytes ↔
      ∃ left, Packed.decode? Packed.crockford32 chars = some (bytes, left) := by
  rw [Spells, if_neg (by rw [insensitive]; exact Bool.false_ne_true)]
  refine exists_congr fun left => ?_
  rw [Packed.decode?_eq_some Packed.proper_crockford32, and_comm]

/-- A name stands for one byte string at most. -/
theorem Spells.unique {bytes' : Bytes} (h : Spells features chars bytes)
    (h' : Spells features chars bytes') : bytes = bytes' := by
  rcases kind : features.caseSensitive with _ | _
  · obtain ⟨left, read⟩ := (spells_iff_of_caseInsensitive kind).mp h
    obtain ⟨left', read'⟩ := (spells_iff_of_caseInsensitive kind).mp h'
    exact (Prod.mk.inj (Option.some.inj (read.symm.trans read'))).1
  · obtain ⟨left, read, -⟩ := (spells_iff_of_caseSensitive kind).mp h
    obtain ⟨left', read', -⟩ := (spells_iff_of_caseSensitive kind).mp h'
    exact (Prod.mk.inj (Option.some.inj (read.symm.trans read'))).1

theorem bytesOfName_eq_some : bytesOfName features chars = .ok (some bytes)
    ↔ Spells features chars bytes := by
  rw [bytesOfName]
  rcases kind : features.caseSensitive with _ | _
  · rw [spells_iff_of_caseInsensitive kind, if_neg Bool.false_ne_true]
    simp
  · rw [spells_iff_of_caseSensitive kind, if_pos rfl]
    rcases Packed.decode? Packed.base64Url chars with _ | ⟨found, left⟩
    · simp
    · dsimp only
      split
      · next ones =>
        refine iff_of_false (by simp) ?_
        rintro ⟨left', same, zeros⟩
        cases same
        exact absurd ones (by rw [zeros]; exact Bool.false_ne_true)
      · next zeros =>
        constructor
        · rintro ⟨⟩
          exact ⟨left, rfl, eq_false_of_ne_true zeros⟩
        · rintro ⟨left', same, -⟩
          cases same
          rfl

/-- Where a name stands for no bytes, it is a fault in base 64 and it is passed over in base 32. -/
theorem bytesOfName_of_not_spells (none : ∀ bytes, ¬ Spells features chars bytes) :
    bytesOfName features chars
      = if features.caseSensitive then .error .invalidName else .ok Option.none := by
  simp only [← bytesOfName_eq_some] at none
  rw [bytesOfName] at none ⊢
  split
  · next sensitive =>
    simp only [if_pos sensitive] at none
    rcases read : Packed.decode? Packed.base64Url chars with _ | ⟨found, left⟩
    · rfl
    · simp only [read] at none ⊢
      split
      · rfl
      · next zeros => exact absurd (if_neg zeros) (none found)
  · next insensitive =>
    simp only [if_neg insensitive] at none
    rcases read : Packed.decode? Packed.crockford32 chars with _ | ⟨found, left⟩
    · rfl
    · rw [read] at none
      exact absurd rfl (none found)

theorem spells_nil (features : Features) : Spells features [] [] := by
  rw [Spells]
  split
  · rfl
  · exact ⟨[], by decide, rfl⟩

/-! ## Paths -/

theorem toOption_ofBytes_eq_some : (Digest.ofBytes bytes).toOption = some d ↔ bytes = d.bytes := by
  rw [Digest.ofBytes]
  split
  · next full =>
    rw [Except.toOption, Option.some_inj]
    exact ⟨fun same => same ▸ rfl, fun same => Digest.ext same⟩
  · next other =>
    refine iff_of_false (Option.some_ne_none d).symm fun same => other ?_
    rw [same, d.length_bytes]

/-- A path without a name is no block. -/
theorem read_of_no_name (none : ∀ chars, ¬ HasName path chars) :
    read features path = .ok Option.none := by
  rcases name : readName? path.toList with _ | chars
  · rw [read, name]
    rfl
  · exact absurd (readName?_eq_some.mp name) (none chars)

/-- A path whose name stands for bytes is the block these bytes name, if there are thirty-two. -/
theorem read_of_spells (name : HasName path chars) (spells : Spells features chars bytes) :
    read features path = .ok (Digest.ofBytes bytes).toOption := by
  rw [read, readName?_eq_some.mpr name]
  rcases chars with _ | ⟨c, rest⟩
  · rw [spells.unique (spells_nil features)]
    rfl
  · dsimp only
    rw [bytesOfName_eq_some.mpr spells]
    rfl

/-- A path whose name stands for no bytes is a fault in base 64, and no block in base 32. -/
theorem read_of_not_spells (name : HasName path chars)
    (none : ∀ bytes, ¬ Spells features chars bytes) : read features path
      = if features.caseSensitive then .error .invalidName else .ok Option.none := by
  rw [read, readName?_eq_some.mpr name]
  rcases chars with _ | ⟨c, rest⟩
  · exact absurd (spells_nil features) (none [])
  · dsimp only
    rw [bytesOfName_of_not_spells none]
    split <;> rfl

/-- The three ways in which a path can be read. -/
theorem read_cases (features : Features) (path : String) :
    (∀ chars, ¬ HasName path chars) ∨
    (∃ chars bytes, HasName path chars ∧ Spells features chars bytes) ∨
    ∃ chars, HasName path chars ∧ ∀ bytes, ¬ Spells features chars bytes := by
  by_cases named : ∃ chars, HasName path chars
  · obtain ⟨chars, name⟩ := named
    by_cases spelled : ∃ bytes, Spells features chars bytes
    · obtain ⟨bytes, spells⟩ := spelled
      exact Or.inr (Or.inl ⟨chars, bytes, name, spells⟩)
    · exact Or.inr (Or.inr ⟨chars, name, not_exists.mp spelled⟩)
  · exact Or.inl (not_exists.mp named)

/-- A path is read as a block just if its name stands for the bytes of the digest. -/
theorem read_eq_some_iff : read features path = .ok (some d) ↔
    ∃ chars, HasName path chars ∧ Spells features chars d.bytes := by
  constructor
  · intro isRead
    rcases read_cases features path with none | ⟨chars, bytes, name, spells⟩ | ⟨chars, name, none⟩
    · rw [read_of_no_name none] at isRead
      cases isRead
    · rw [read_of_spells name spells, Except.ok.injEq, toOption_ofBytes_eq_some] at isRead
      exact ⟨chars, name, isRead ▸ spells⟩
    · rw [read_of_not_spells name none] at isRead
      split at isRead <;> cases isRead
  · rintro ⟨chars, name, spells⟩
    rw [read_of_spells name spells, toOption_ofBytes_eq_some.mpr rfl]

/-- Reading a path fails just in base 64, and there just if it has a name that is no text of
bytes. -/
theorem read_eq_error_iff : read features path = .error .invalidName ↔
    features.caseSensitive = true ∧
      ∃ chars, HasName path chars ∧ ∀ bytes, ¬ Spells features chars bytes := by
  constructor
  · intro isRead
    rcases read_cases features path with none | ⟨chars, bytes, name, spells⟩ | ⟨chars, name, none⟩
    · rw [read_of_no_name none] at isRead
      cases isRead
    · rw [read_of_spells name spells] at isRead
      cases isRead
    · rw [read_of_not_spells name none] at isRead
      split at isRead
      · next sensitive => exact ⟨sensitive, chars, name, none⟩
      · cases isRead
  · rintro ⟨sensitive, chars, name, none⟩
    rw [read_of_not_spells name none, if_pos sensitive]

/-- All other paths are told to be no blocks. -/
theorem read_eq_none_iff : read features path = .ok none ↔
    (∀ d : Digest, ∀ chars, HasName path chars → ¬ Spells features chars d.bytes) ∧
      (features.caseSensitive = true → ∀ chars, HasName path chars →
        ∃ bytes, Spells features chars bytes) := by
  rcases isRead : read features path with ⟨⟩ | (_ | d)
  · obtain ⟨sensitive, chars, name, none⟩ := read_eq_error_iff.mp isRead
    refine iff_of_false (by simp) fun ⟨_, spelled⟩ => ?_
    obtain ⟨bytes, spells⟩ := spelled sensitive chars name
    exact none bytes spells
  · refine iff_of_true rfl ⟨fun d chars name spells => ?_, fun sensitive chars name => ?_⟩
    · cases isRead.symm.trans (read_eq_some_iff.mpr ⟨chars, name, spells⟩)
    · by_contra none
      cases isRead.symm.trans
        (read_eq_error_iff.mpr ⟨sensitive, chars, name, not_exists.mp none⟩)
  · obtain ⟨chars, name, spells⟩ := read_eq_some_iff.mp isRead
    exact iff_of_false (by simp) fun spelled => spelled.1 d chars name spells

end PinnedStore.BlockPath
