import Mathlib.Data.List.Perm.Subperm
import PinnedStore.Proofs.Storage.Place
import PinnedStore.Storage.ObjectStore

/-!
# What a store holds

Seen as a store of blocks, an object store holds at most one byte string for each digest.  In a
directory a block can be held without being readable, as long as something is in the way; so what is
held and what can be read are told apart.  What is read is what is held, and a way that is open once
stays open.

A store is *content-addressed* if everything it holds for a digest has that digest, and if in a
directory nothing else can stand in the place of a block.  Writing blocks under their digests and
removing blocks keeps it so.

* `ObjectStore.held`, `ObjectStore.isOpen`, `ObjectStore.block?`: what is held, whether the way to
  it is open, and what can be read.
* `ObjectStore.ContentAddressed`: everything is held under its digest.
* `ObjectStore.put_spec`, `ObjectStore.held_delete`, `ObjectStore.block?_delete`: what writing and
  removing one block does.
* `ObjectStore.length_le_bound`: there are no more blocks to read than the store has objects.
-/

namespace PinnedStore

namespace Directory

variable {s : Directory} {d : Digest} {data : Bytes}

theorem stat_target {e : Entry} :
    s.disk.stat (s.target d) = .ok e
      ↔ s.disk.locate (s.target d) = .ok (s.place d) ∧ s.disk.entry? (s.place d) = some e := by
  rw [Disk.stat_eq_ok_iff, follow_target]

/-- Reading all of an object gives the content of the file its path leads to. -/
theorem read_eq_ok {path : String} : s.read path 0 none = .ok data ↔
    ∃ target, s.resolve path = .ok target ∧ s.disk.stat target = .ok (.file data) := by
  rw [read]
  rcases s.resolve path with f | target
  · simp [bind, Except.bind]
  simp only [bind, Except.bind, Except.ok.injEq, exists_eq_left']
  rcases s.disk.stat target with e | (_ | content)
  · simp [Except.mapError]
  · simp [Except.mapError, sizeOf, Disk.directorySize, throw, throwThe,
      MonadExceptOf.throw]
  · by_cases empty : content = []
    · simp [Except.mapError, sizeOf, empty, pure, Except.pure, eq_comm]
    · simp [Except.mapError, sizeOf, empty, pure, Except.pure, Bytes.window]

/-- Reading all of a block gives the content of the file at its place. -/
theorem read_write :
    s.read (BlockPath.write features d) 0 none = .ok data
      ↔ s.disk.locate (s.target d) = .ok (s.place d)
        ∧ s.disk.entry? (s.place d) = some (.file data) := by
  rw [read_eq_ok, ← stat_target, resolve_write]
  simp only [Except.ok.injEq, exists_eq_left']

theorem isThere_write :
    s.isThere (BlockPath.write features d) = .ok true
      ↔ s.disk.locate (s.target d) = .ok (s.place d) ∧ ∃ e, s.disk.entry? (s.place d) = some e := by
  have same : s.isThere (BlockPath.write features d) = .ok true
      ↔ ∃ e, s.disk.stat (s.target d) = .ok e := by
    rw [isThere, resolve_write]
    simp only [bind, Except.bind, Disk.isThere]
    rcases s.disk.stat (s.target d) with e | e
    · by_cases notFound : e.isNotFound = true <;> simp [Except.mapError, notFound]
    · simp [Except.mapError]
  rw [same]
  simp only [stat_target, exists_and_left]

end Directory

namespace ObjectStore

/-- What stands at the place of a block. -/
def held (d : Digest) : ObjectStore → Option Bytes
  | .memory objects => objects[BlockPath.write (features (.memory objects)) d]?
  | .directory s =>
    match s.disk.entry? (s.place d) with
    | some (.file data) => some data
    | _ => none

/-- Whether the way to the place of a block is open. -/
def isOpen (d : Digest) : ObjectStore → Prop
  | .memory _ => True
  | .directory s => s.disk.locate (s.target d) = .ok (s.place d)

/-- What can be read of a block. -/
def block? (s : ObjectStore) (d : Digest) : Option Bytes :=
  (s.read (BlockPath.write s.features d) 0 none).toOption

/-- Everything is held under its digest. -/
def ContentAddressed : ObjectStore → Prop
  | .memory objects => ∀ d data, held d (.memory objects) = some data → Digest.of data = d
  | .directory s => s.Sound

/-- The path of a store that has one. -/
def base? : ObjectStore → Option (List Char)
  | .memory _ => none
  | .directory s => some s.base

/-- The same kind of store, in which no way has been closed. -/
structure Later (s s' : ObjectStore) : Prop where
  base? : s'.base? = s.base?
  isOpen : ∀ {d}, s.isOpen d → s'.isOpen d

namespace Later

theorem refl (s : ObjectStore) : Later s s := ⟨rfl, id⟩

theorem trans {s s' s'' : ObjectStore} (first : Later s s') (second : Later s' s'') :
    Later s s'' :=
  ⟨second.base?.trans first.base?, fun h => second.isOpen (first.isOpen h)⟩

end Later

variable {s s' : ObjectStore} {d : Digest} {data : Bytes}

theorem held_directory_eq_some {s : Directory} :
    held d (.directory s) = some data ↔ s.disk.entry? (s.place d) = some (.file data) := by
  rw [held]
  split <;> simp_all

theorem isThere_memory (objects : Std.ExtTreeMap String Bytes) (d : Digest) :
    isThere (BlockPath.write (features (.memory objects)) d) (.memory objects)
      = .ok (held d (.memory objects)).isSome :=
  congrArg Except.ok Std.ExtTreeMap.contains_eq_isSome_getElem?

/-- What is read is what is held, if the way is open. -/
theorem block?_eq_some : s.block? d = some data ↔ s.isOpen d ∧ s.held d = some data := by
  cases s with
  | memory objects =>
    rw [block?, read, held]
    rcases objects[BlockPath.write (features (.memory objects)) d]? with _ | content
    · simp [Except.toOption]
    · simp [Except.toOption, isOpen, Bytes.window]
  | directory s =>
    rw [held_directory_eq_some, isOpen, ← Directory.read_write, block?]
    change (s.read (BlockPath.write Directory.features d) 0 none).toOption = some data ↔ _
    cases s.read (BlockPath.write Directory.features d) 0 none <;> simp [Except.toOption]

theorem held_inMemory : held d inMemory = none := Std.ExtTreeMap.getElem?_empty

theorem contentAddressed_inMemory : inMemory.ContentAddressed :=
  fun _ _ h => nomatch held_inMemory.symm.trans h

theorem held_of_block? (h : s.block? d = some data) : s.held d = some data :=
  (block?_eq_some.mp h).2

theorem ContentAddressed.digest_of_held (addressed : s.ContentAddressed)
    (h : s.held d = some data) : Digest.of data = d := by
  cases s with
  | memory objects => exact addressed d data h
  | directory s =>
    obtain ⟨content, same, named⟩ := addressed.file (held_directory_eq_some.mp h)
    cases same
    exact named

/-- In a content-addressed store what is said to be there can be read. -/
theorem ContentAddressed.block?_of_isThere (addressed : s.ContentAddressed)
    (h : s.isThere (BlockPath.write s.features d) = .ok true) :
    ∃ data, s.block? d = some data := by
  cases s with
  | memory objects =>
    rw [isThere_memory] at h
    obtain ⟨data, there⟩ := Option.isSome_iff_exists.mp (Except.ok.inj h)
    exact ⟨data, block?_eq_some.mpr ⟨trivial, there⟩⟩
  | directory s =>
    obtain ⟨isOpen, e, there⟩ := Directory.isThere_write.mp h
    obtain ⟨data, rfl, -⟩ := addressed.file there
    exact ⟨data, block?_eq_some.mpr ⟨isOpen, held_directory_eq_some.mpr there⟩⟩

/-! ## Writing and removing -/

theorem held_insert (objects : Std.ExtTreeMap String Bytes) (d d' : Digest) (data : Bytes) :
    held d' (.memory (objects.insert (BlockPath.write (features (.memory objects)) d) data))
      = if d' = d then some data else held d' (.memory objects) := by
  change (objects.insert _ data)[BlockPath.write (features (.memory objects)) d']? = _
  by_cases same : d' = d
  · simp [same]
  · have apart := fun h => same (BlockPath.write_injective (features (.memory objects)) h).symm
    rw [if_neg same, Std.ExtTreeMap.getElem?_insert, if_neg fun h =>
      apart (Std.compare_eq_iff_eq.mp h)]
    rfl

theorem held_erase (objects : Std.ExtTreeMap String Bytes) (d d' : Digest) :
    held d' (.memory (objects.erase (BlockPath.write (features (.memory objects)) d)))
      = if d' = d then none else held d' (.memory objects) := by
  change (objects.erase _)[BlockPath.write (features (.memory objects)) d']? = _
  by_cases same : d' = d
  · simp [same]
  · have apart := fun h => same (BlockPath.write_injective (features (.memory objects)) h).symm
    rw [if_neg same, Std.ExtTreeMap.getElem?_erase, if_neg fun h =>
      apart (Std.compare_eq_iff_eq.mp h)]
    rfl

theorem held_directory_congr {s s' : Directory} (later : Directory.Later s s')
    (same : s'.disk.entry? (s.place d) = s.disk.entry? (s.place d)) :
    held d (.directory s') = held d (.directory s) := by
  rw [held, held, later.place, same]

theorem later_directory {s s' : Directory} (later : Directory.Later s s') :
    Later (.directory s) (.directory s') := by
  refine ⟨congrArg some later.base, fun {d} h => ?_⟩
  rw [isOpen, later.place, later.target]
  exact later.keeps.locate h

/-- What a change at the place of one block does to a store. -/
structure ChangesOnly (d : Digest) (s s' : ObjectStore) : Prop where
  later : Later s s'
  addressed : s'.ContentAddressed
  others : ∀ d' ≠ d, s'.held d' = s.held d'

/-- A change of a directory at the place of one block, where it leaves nothing or a file of the
right content. -/
theorem changesOnly_directory {s s' : Directory} (sound : s.Sound) (later : Directory.Later s s')
    (others : ∀ d' ≠ d, s'.disk.entry? (s.place d') = s.disk.entry? (s.place d'))
    (own : ∀ e, s'.disk.entry? (s.place d) = some e → ∃ data, e = .file data ∧ Digest.of data = d) :
    ChangesOnly d (.directory s) (.directory s') := by
  refine ⟨later_directory later, ⟨later.clear sound.clear, fun {d' e} there => ?_⟩,
    fun d' other => held_directory_congr later (others d' other)⟩
  rw [later.place] at there
  by_cases same : d' = d
  · subst same
    exact own e there
  · rw [others d' same] at there
    exact sound.file there

theorem put_directory {s t : Directory} {path : String} {result : Except Failure Unit}
    (h : s.put path data = (result, t)) :
    put path data (.directory s) = (result, .directory t) := by
  rw [put, h]

/-- What writing a block does: nothing to other blocks, and to its own place nothing but the block.
A write that succeeds leaves the block readable. -/
theorem put_spec (addressed : s.ContentAddressed) (named : Digest.of data = d)
    {result : Except Failure Unit} (h : s.put (BlockPath.write s.features d) data = (result, s')) :
    ChangesOnly d s s' ∧ (s'.held d = s.held d ∨ s'.held d = some data) ∧
      (result = .ok () → s'.block? d = some data) := by
  cases s with
  | memory objects =>
    cases h
    have own := (held_insert objects d d data).trans (if_pos rfl)
    have others := fun d' (other : d' ≠ d) => (held_insert objects d d' data).trans (if_neg other)
    refine ⟨⟨⟨rfl, id⟩, fun d' data' there => ?_, others⟩, Or.inr own,
      fun _ => block?_eq_some.mpr ⟨trivial, own⟩⟩
    by_cases same : d' = d
    · subst same
      rw [own] at there
      cases there
      exact named
    · rw [others d' same] at there
      exact addressed d' data' there
  | directory s =>
    rcases step : s.put (BlockPath.write Directory.features d) data with ⟨result', t⟩
    have whole := put_directory step
    cases whole.symm.trans h
    obtain ⟨later, others, own, succeeds⟩ := Directory.put_spec addressed.clear step
    refine ⟨changesOnly_directory addressed later others fun e there => ?_, ?_, fun done => ?_⟩
    · rcases own with same | written
      · exact addressed.file (same ▸ there)
      · rw [written] at there
        cases there
        exact ⟨data, rfl, named⟩
    · rcases own with same | written
      · exact Or.inl (held_directory_congr later same)
      · exact Or.inr (held_directory_eq_some.mpr (later.place d ▸ written))
    · obtain ⟨located, there⟩ := succeeds done
      refine block?_eq_some.mpr ⟨?_, held_directory_eq_some.mpr (later.place d ▸ there)⟩
      rw [isOpen, later.place, later.target]
      exact located

theorem delete_directory {s : Directory} {path : String} {s' : ObjectStore}
    (h : delete path (.directory s) = .ok s') : ∃ t, s.delete path = .ok t ∧ s' = .directory t := by
  change (s.delete path).map _ = _ at h
  rcases step : s.delete path with e | t
  · rw [step] at h
    cases h
  · rw [step] at h
    cases h
    exact ⟨t, rfl, rfl⟩

theorem features_delete {path : String} (h : s.delete path = .ok s') :
    s'.features = s.features := by
  cases s with
  | memory objects =>
    cases h
    rfl
  | directory s =>
    obtain ⟨t, -, rfl⟩ := delete_directory h
    rfl

/-- What removing a block does: nothing to the ways that are open, and nothing to other blocks. -/
theorem held_delete (h : s.delete (BlockPath.write s.features d) = .ok s') :
    Later s s' ∧ Later s' s ∧ (∀ d' ≠ d, s'.held d' = s.held d') ∧
      (s'.held d = s.held d ∨ s'.held d = none) := by
  cases s with
  | memory objects =>
    cases h
    have own := (held_erase objects d d).trans (if_pos rfl)
    have others := fun d' (other : d' ≠ d) => (held_erase objects d d').trans (if_neg other)
    exact ⟨⟨rfl, id⟩, ⟨rfl, id⟩, others, Or.inr own⟩
  | directory s =>
    obtain ⟨t, step, rfl⟩ := delete_directory h
    obtain ⟨later, earlier, others, own⟩ := Directory.delete_spec step
    refine ⟨later_directory later, later_directory earlier,
      fun d' other => held_directory_congr later (others d' other), ?_⟩
    rcases own with same | gone
    · exact Or.inl (held_directory_congr later same)
    · refine Or.inr ?_
      rw [held, later.place, gone]

/-- Removing a block keeps a store content-addressed. -/
theorem delete_spec (addressed : s.ContentAddressed)
    (h : s.delete (BlockPath.write s.features d) = .ok s') :
    ChangesOnly d s s' ∧ (s'.held d = s.held d ∨ s'.held d = none) := by
  obtain ⟨later, -, others, own⟩ := held_delete h
  refine ⟨⟨later, ?_, others⟩, own⟩
  cases s with
  | memory objects =>
    cases h
    intro d' data' there
    by_cases same : d' = d
    · subst same
      rcases own with unchanged | gone
      · exact addressed d' data' (unchanged ▸ there)
      · cases gone.symm.trans there
    · exact addressed d' data' (others d' same ▸ there)
  | directory s =>
    obtain ⟨t, step, rfl⟩ := delete_directory h
    obtain ⟨later, -, others, own⟩ := Directory.delete_spec step
    refine (changesOnly_directory addressed later others fun e there => ?_).addressed
    rcases own with same | gone
    · exact addressed.file (same ▸ there)
    · cases gone.symm.trans there

/-- A block that can be read can be removed. -/
theorem delete_of_block? (h : s.block? d = some data) :
    ∃ s', s.delete (BlockPath.write s.features d) = .ok s' ∧ s'.held d = none := by
  obtain ⟨isOpen, held⟩ := block?_eq_some.mp h
  cases s with
  | memory objects => exact ⟨_, rfl, (held_erase objects d d).trans (if_pos rfl)⟩
  | directory s =>
    have there := held_directory_eq_some.mp held
    obtain ⟨t, removed, gone⟩ := Directory.delete_of_locate isOpen there
    refine ⟨.directory t, ?_, ?_⟩
    · change (s.delete (BlockPath.write Directory.features d)).map _ = _
      rw [removed]
      rfl
    · obtain ⟨later, -⟩ := Directory.delete_spec removed
      rw [ObjectStore.held, later.place, gone]

/-- After a block has been removed, just this one can not be read any more. -/
theorem block?_delete (h : s.delete (BlockPath.write s.features d) = .ok s') (d' : Digest) :
    s'.block? d' = if d' = d then none else s.block? d' := by
  obtain ⟨later, earlier, others, own⟩ := held_delete h
  have same : ∀ {x data}, s'.held x = s.held x →
      (s'.block? x = some data ↔ s.block? x = some data) := by
    intro x data held
    rw [block?_eq_some, block?_eq_some, held]
    exact and_congr_left fun _ => ⟨earlier.isOpen, later.isOpen⟩
  by_cases isIt : d' = d
  · rw [if_pos isIt, isIt, Option.eq_none_iff_forall_ne_some]
    intro data there
    have held : s'.held d = some data := held_of_block? there
    -- A block that a removal leaves could not be read before, or else it would have been removed.
    rcases own with unchanged | gone
    · obtain ⟨s'', removed, absent⟩ := delete_of_block? ((same unchanged).mp there)
      cases h.symm.trans removed
      cases absent.symm.trans held
    · cases gone.symm.trans held
  · rw [if_neg isIt]
    exact Option.ext fun data => same (others d' isIt)

/-! ## Counting -/

theorem mem_keys_directory {s : Directory} (h : held d (.directory s) = some data) :
    s.place d ∈ s.disk.entries.keys := by
  have there := held_directory_eq_some.mp h
  rw [Disk.entry?, if_neg (by simpa using s.place_ne_nil d)] at there
  rw [Std.ExtTreeMap.mem_keys, Std.ExtTreeMap.mem_iff_isSome_getElem?]
  exact Option.isSome_of_eq_some there

/-- There are no more blocks than the store has objects. -/
theorem length_le_bound {ds : List Digest} (nodup : ds.Nodup) (there : ∀ d ∈ ds, s.held d ≠ none) :
    ds.length ≤ s.bound := by
  cases s with
  | memory objects =>
    have inside : ds.map (BlockPath.write (features (.memory objects))) ⊆ objects.keys := by
      intro path h
      obtain ⟨d, isIn, rfl⟩ := List.mem_map.mp h
      rw [Std.ExtTreeMap.mem_keys, Std.ExtTreeMap.mem_iff_isSome_getElem?]
      exact Option.isSome_iff_ne_none.mpr (there d isIn)
    have := ((nodup.map (BlockPath.write_injective _)).subperm inside).length_le
    simpa [bound] using this
  | directory s =>
    have inside : ds.map s.place ⊆ s.disk.entries.keys := by
      intro l h
      obtain ⟨d, isIn, rfl⟩ := List.mem_map.mp h
      obtain ⟨data, held⟩ := Option.ne_none_iff_exists'.mp (there d isIn)
      exact mem_keys_directory held
    have := ((nodup.map s.place_injective).subperm inside).length_le
    simpa [bound] using this

end ObjectStore

end PinnedStore
