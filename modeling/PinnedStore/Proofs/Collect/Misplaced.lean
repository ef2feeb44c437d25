import PinnedStore.Proofs.Collect.Agreement
import PinnedStore.Proofs.Storage.Foreign

/-!
# Files that are listed as blocks and are not kept as blocks

A path is read leniently: below the common directory the separators may stand anywhere, and at the
end of a name in base 32 there are bits that nobody looks at.  So a block has one path at which it
is kept and many that are read as it.  A file that somebody has put at another of these paths is
listed as the block, while asking for the block, or removing it, does not lead to the file.

A sweep takes such a file to be a block.  If this block is not to be kept it is removed, which goes
through although there may be nothing to remove, and the removal is counted; but the file stays, and
is listed again.  This is the one thing that can go wrong.  Whatever files there are, the paths that
are gone after a sweep without errors are those of the blocks that need not be kept, and the report
counts them and, besides, the misplaced files.  So a sweep has done what it reports, and leaves only
blocks that are to be kept, if and only if no file is misplaced.

* `ObjectStore.Removes.delists`: what is listed after removals.
* `Collect.expendable`, `Collect.misplaced`: paths that are read as blocks that need not be kept,
  and those of them that are not the block's own.
* `Collect.countP_expendable`, `Collect.forall_kept_iff`: what follows from the paths that remain.
* `Collect.sweep_misplaced`: what a sweep without errors has done to any store.
-/

namespace PinnedStore

open Program

namespace ObjectStore

variable {s s' : ObjectStore}

/-- After removals just the paths of these blocks are not listed any more. -/
theorem Removes.delists {ds : List Digest} (removes : Removes ds s s') (tree : s.Tree) :
    Delists (· ∈ ds) s s' := by
  induction removes with
  | nil s => exact ⟨tree, rfl, fun path => by simp⟩
  | cons removed _ ih =>
    have first := delists_delete tree removed
    have others := ih first.tree
    refine ⟨others.tree, others.features.trans first.features, fun path => ?_⟩
    rw [others.list, first.list, first.features, forall_eq, List.forall_mem_cons, and_assoc]

end ObjectStore

namespace Collect

/-! ## Misplaced files -/

/-- Whether a path is read as a block that need not be kept. -/
def expendable (features : Features) (kept : Digests) (path : String) : Bool :=
  (BlockPath.digest? features path).any (· ∉ kept)

/-- Whether a path is read as a block that need not be kept without being its path. -/
def misplaced (features : Features) (kept : Digests) (path : String) : Bool :=
  (BlockPath.digest? features path).any fun d => d ∉ kept ∧ path ≠ BlockPath.write features d

theorem expendable_iff {features : Features} {kept : Digests} {path : String} :
    expendable features kept path = true
      ↔ ∃ d, BlockPath.read features path = .ok (some d) ∧ d ∉ kept := by
  simp only [expendable, Option.any_eq_true, BlockPath.digest?_eq_some, decide_eq_true_eq]

theorem misplaced_iff {features : Features} {kept : Digests} {path : String} :
    misplaced features kept path = true ↔ ∃ d, BlockPath.read features path = .ok (some d) ∧
      d ∉ kept ∧ path ≠ BlockPath.write features d := by
  simp only [misplaced, Option.any_eq_true, BlockPath.digest?_eq_some, decide_eq_true_eq]

/-- There are as many candidates as paths that are read as one. -/
theorem countP_digestsOf {features : Features} {kept : Digests} {paths : List String}
    {ds : List Digest} (h : Blocks.digestsOf features paths = .ok ds) :
    ds.countP (· ∉ kept) = paths.countP (expendable features kept) := by
  rw [Blocks.digestsOf_eq h, List.countP_filterMap]
  refine congrArg (paths.countP ·) (funext fun path => ?_)
  rw [expendable]
  cases BlockPath.digest? features path <;> rfl

section Remains

variable {features : Features} {kept : Digests} {before after : List String} {path : String}
  (remains : ∀ path, path ∈ after ↔
    path ∈ before ∧ ∀ d, d ∉ kept → path ≠ BlockPath.write features d)

include remains

/-- A path that is read as a block that need not be kept remains if and only if it is misplaced. -/
theorem misplaced_iff_remains (listed : path ∈ before) : misplaced features kept path = true ↔
    expendable features kept path = true ∧ path ∈ after := by
  rw [misplaced_iff, expendable_iff, remains]
  constructor
  · rintro ⟨d, isRead, outside, elsewhere⟩
    refine ⟨⟨d, isRead, outside⟩, listed, fun d' _ there => ?_⟩
    rw [there, BlockPath.read_write] at isRead
    cases isRead
    exact elsewhere there
  · rintro ⟨⟨d, isRead, outside⟩, -, elsewhere⟩
    exact ⟨d, isRead, outside, elsewhere d outside⟩

/-- A path that has gone was read as a block that need not be kept. -/
theorem expendable_of_gone (listed : path ∈ before) (gone : path ∉ after) :
    expendable features kept path = true := by
  by_contra other
  refine gone ((remains path).mpr ⟨listed, fun d outside there => other ?_⟩)
  refine expendable_iff.mpr ⟨d, ?_, outside⟩
  rw [there, BlockPath.read_write]

/-- The paths that are read as blocks that need not be kept are those that have gone and those that
are misplaced. -/
theorem countP_expendable : before.countP (expendable features kept)
    = before.countP (· ∉ after) + before.countP (misplaced features kept) := by
  rw [before.countP_eq_countP_filter_add _ (· ∉ after), List.countP_filter, List.countP_filter]
  refine congrArg₂ _ (List.countP_congr fun path listed => ?_)
    (List.countP_congr fun path listed => ?_)
  · rw [Bool.and_eq_true, decide_eq_true_eq, and_iff_right_iff_imp]
    exact expendable_of_gone remains listed
  · rw [misplaced_iff_remains remains listed]
    simp

/-- Just blocks that must be kept are listed afterwards, if and only if nothing was misplaced. -/
theorem forall_kept_iff {ds : List Digest} (read : Blocks.digestsOf features after = .ok ds) :
    (∀ d ∈ ds, d ∈ kept) ↔ ∀ path ∈ before, misplaced features kept path = false := by
  constructor
  · intro allKept path listed
    rw [← Bool.not_eq_true, misplaced_iff_remains remains listed, expendable_iff]
    rintro ⟨⟨d, isRead, outside⟩, stays⟩
    exact outside (allKept d ((Blocks.mem_digestsOf read).mpr ⟨path, stays, isRead⟩))
  · intro noneMisplaced d inside
    obtain ⟨path, stays, isRead⟩ := (Blocks.mem_digestsOf read).mp inside
    have listed := ((remains path).mp stays).1
    by_contra outside
    have wrong : misplaced features kept path = true := (misplaced_iff_remains remains listed).mpr
      ⟨expendable_iff.mpr ⟨d, isRead, outside⟩, stays⟩
    rw [noneMisplaced path listed] at wrong
    cases wrong

end Remains

/-! ## Sweeps -/

variable {w w' : World} {kept : Digests}

/-- What a sweep without errors has done to the paths that were listed. -/
theorem sweep_remains {report : Report} (truthful : w.conduct.lies = []) (tree : w.store.Tree)
    (swept : sweep kept false w = (.done report, w')) (errors : report.errors = []) :
    w'.store.features = w.store.features ∧
    (∀ path, path ∈ w'.store.list ↔ path ∈ w.store.list ∧
      ∀ d, d ∉ kept → path ≠ BlockPath.write w.store.features d) ∧
    ∃ ds, Blocks.digestsOf w.store.features w.store.list = .ok ds ∧
      report.deleted = ds.countP (· ∉ kept) := by
  obtain ⟨ds, between, listed, removed, reported⟩ := swept_of_sweep swept
  obtain ⟨moved, read⟩ := Blocks.digestsOf_of_list truthful listed
  rw [errors] at removed reported
  have removes := (removeAll_done (moved.truthful truthful) removed).store
  rw [← moved.store] at removes
  have delists := removes.delists tree
  refine ⟨delists.features, fun path => ?_, ds, read, ?_⟩
  · rw [delists.list]
    refine and_congr_right fun before => ?_
    simp only [List.mem_filter, decide_eq_true_eq]
    refine ⟨fun elsewhere d outside there => ?_, fun elsewhere d h => elsewhere d h.2⟩
    -- A block whose path is listed is among those that have been found.
    refine elsewhere d ⟨(Blocks.mem_digestsOf read).mpr ⟨path, before, ?_⟩, outside⟩ there
    rw [there, BlockPath.read_write]
  · rw [reported, List.countP_eq_length_filter]
    rfl

/-- What a sweep without errors has done to any store, whatever files are in it and whoever has put
them there.  Of the paths that were listed, each of them once, just those of the blocks that need
not be kept are gone.  The number reported is the number of these and of the misplaced files.  And
just blocks that must be kept are listed afterwards, if and only if no file is misplaced. -/
theorem sweep_misplaced {report : Report} (truthful : w.conduct.lies = []) (tree : w.store.Tree)
    (swept : sweep kept false w = (.done report, w')) (errors : report.errors = []) :
    w.store.list.Nodup ∧
    (∀ path, path ∈ w'.store.list ↔ path ∈ w.store.list ∧
      ∀ d, d ∉ kept → path ≠ BlockPath.write w.store.features d) ∧
    report.deleted = w.store.list.countP (· ∉ w'.store.list)
      + w.store.list.countP (misplaced w.store.features kept) ∧
    ∀ v : World, v.conduct = .honest → v.store = w'.store → ∃ ds u, Blocks.list v = (.done ds, u) ∧
      ((∀ d ∈ ds, d ∈ kept) ↔
        ∀ path ∈ w.store.list, misplaced w.store.features kept path = false) := by
  obtain ⟨same, remains, ds, read, deleted⟩ := sweep_remains truthful tree swept errors
  refine ⟨tree.nodup_list, remains, ?_, fun v honest store => ?_⟩
  · rw [deleted, countP_digestsOf read, countP_expendable remains]
  · have readable := Blocks.exists_digestsOf_iff.mp ⟨ds, read⟩
    obtain ⟨left, readLeft⟩ := Blocks.exists_digestsOf_iff.mpr fun path stays =>
      readable path ((remains path).mp stays).1
    refine ⟨left, v.ticked, ?_, forall_kept_iff remains readLeft⟩
    rw [Blocks.list_honest honest, store, same, readLeft]
    rfl

/-! ### A name that is not split -/

/-- The path of a block in a directory, but that its name is not split. -/
def unsplit (d : Digest) : String :=
  String.ofList (BlockPath.top ++ BlockPath.symbols Directory.features d)

/-- A directory with one file, at the unsplit path of a block. -/
def strayStore : ObjectStore :=
  ((ObjectStore.directory ⟨"blocks".toList, .empty⟩).put (unsplit (Sample.repeated 1)) []).2

/-- A world with this store. -/
def strayWorld : World := World.fresh strayStore ∅

theorem tree_strayStore : strayStore.Tree := by
  have empty : (ObjectStore.directory ⟨"blocks".toList, .empty⟩).Tree := .directory (.empty [])
  rw [strayStore]
  exact empty.put _ _

theorem sweep_strayWorld :
    ((sweep ∅ false strayWorld).1.value?.map fun report => (report.errors.length, report.deleted))
      = some (0, 1) ∧
    strayWorld.store.list.countP (· ∉ (sweep ∅ false strayWorld).2.store.list) = 0 ∧
    (Blocks.list (sweep ∅ false strayWorld).2).1.value? = some [Sample.repeated 1] := by
  decide +kernel

/-- A sweep without errors that keeps nothing reports a block as deleted where no file has gone, and
the block is listed afterwards. -/
theorem not_swept_away : ∃ report w', sweep ∅ false strayWorld = (.done report, w') ∧
    report.errors = [] ∧
    report.deleted ≠ strayWorld.store.list.countP (· ∉ w'.store.list) ∧
    ∃ ds v, Blocks.list w' = (.done ds, v) ∧ ∃ d ∈ ds, d ∉ (∅ : Digests) := by
  obtain ⟨reported, gone, left⟩ := sweep_strayWorld
  -- What the world is does not matter from here on.
  generalize strayWorld = w at *
  generalize Sample.repeated 1 = d at *
  obtain ⟨report, answered, numbers⟩ := Option.map_eq_some_iff.mp reported
  obtain ⟨errors, deleted⟩ := Prod.mk.inj numbers
  refine ⟨report, _, done_of_value? answered, List.eq_nil_of_length_eq_zero errors, ?_, [d], _,
    done_of_value? left, d, List.mem_singleton_self d, Std.ExtTreeSet.not_mem_empty⟩
  rw [deleted, gone]
  decide

/-- The file is misplaced, and it is what has been counted. -/
theorem sweep_misplaced_strayWorld : ∃ report w', sweep ∅ false strayWorld = (.done report, w') ∧
    report.deleted = strayWorld.store.list.countP (· ∉ w'.store.list)
      + strayWorld.store.list.countP (misplaced strayWorld.store.features ∅) := by
  obtain ⟨reported, -, -⟩ := sweep_strayWorld
  have tree := tree_strayStore
  rw [strayWorld] at *
  -- What the store is does not matter from here on.
  generalize strayStore = store at *
  obtain ⟨report, answered, numbers⟩ := Option.map_eq_some_iff.mp reported
  have errors := List.eq_nil_of_length_eq_zero (Prod.mk.inj numbers).1
  have swept := done_of_value? answered
  exact ⟨report, _, swept, (sweep_misplaced rfl tree swept errors).2.2.1⟩

end Collect

end PinnedStore
