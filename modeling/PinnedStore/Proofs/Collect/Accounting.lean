import PinnedStore.Proofs.Collect.Preservation
import PinnedStore.Proofs.Storage.Refinement

/-!
# A sweep accounts for what it does

In a store into which nothing but blocks has been written every block is listed, and it is listed
once.  So the numbers a sweep reports are numbers of blocks: how many there are, how many of them
must be kept, how many have been removed, and how many could not be.  Every candidate is tried once
and either goes or turns up among the errors.  A removal that fails has no effect and does not stop
the sweep, and one that goes through takes away nothing but its own block; so which blocks are gone
in the end can be read off the report.

Which removals fail is any set of blocks.  A dry run reports what the sweep would report if it
removed nothing, and removes nothing.

All of this is about the blocks a sweep gets to see.  These are the blocks that can be read, but for
two kinds of store.  A directory at an empty path lists nothing, so its blocks are neither counted
nor removed; and where a path that is listed can not be read a sweep sees nothing at all and fails.

* `Conduct.Refuses`: storage that fails to remove just some blocks, and `Conduct.refusing` an
  instance.
* `Collect.removeAll_refused`: what is left when some removals fail.
* `ObjectStore.exists_stored`: the blocks that can be read, as a set.
* `Collect.Accounts`: the numbers of a report are numbers of blocks.
* `Collect.Sees`: what a sweep sees of the blocks that are stored.
* `Collect.sweep_accounts`: a sweep does what it reports.
-/

namespace PinnedStore

open Program

/-! ## Storage that fails to remove some blocks -/

/-- Storage that lists its objects, and fails to remove these blocks whenever it is asked to and no
others. -/
structure Conduct.Refuses (features : Features) (stuck : Digest → Bool) (c : Conduct) : Prop where
  truthful : c.lies = []
  lists : ∀ number, c.verdict number .list = .proceed
  fails : ∀ number d, stuck d = true →
    ∃ f, c.verdict number (.delete (BlockPath.write features d)) = .fail f
  removes : ∀ number d, stuck d = false →
    c.verdict number (.delete (BlockPath.write features d)) = .proceed

/-- Storage that refuses to remove these blocks and does everything else it is asked to do. -/
def Conduct.refusing (features : Features) (stuck : Digest → Bool) : Conduct where
  verdict _ op := match op with
    | .delete path => match BlockPath.read features path with
      | .ok (some d) => if stuck d then .fail (.other "refused") else .proceed
      | _ => .proceed
    | _ => .proceed
  lies := []
  stalled := false

theorem Conduct.refuses_refusing (features : Features) (stuck : Digest → Bool) :
    (refusing features stuck).Refuses features stuck where
  truthful := rfl
  lists _ := rfl
  fails _ d isStuck := by
    refine ⟨.other "refused", ?_⟩
    simp only [refusing, BlockPath.read_write, if_pos isStuck]
  removes _ d notStuck := by
    simp [refusing, BlockPath.read_write, notStuck]

namespace Blocks

variable {w : World} {d : Digest} {data : Bytes} {stuck : Digest → Bool}

/-- A removal that is refused has no effect. -/
theorem remove_of_stuck (refuses : w.conduct.Refuses w.store.features stuck)
    (isStuck : stuck d = true) :
    ∃ f, remove d w = (.failed f, w.ticked) := by
  obtain ⟨f, fails⟩ := refuses.fails w.clock d isStuck
  exact ⟨f, remove_of_fails refuses.truthful fails⟩

/-- The removal of a block that can be read goes through if it is not refused. -/
theorem remove_of_not_stuck (refuses : w.conduct.Refuses w.store.features stuck)
    (notStuck : stuck d = false) (there : w.store.block? d = some data) :
    ∃ w', remove d w = (.done (), w') ∧ World.Moves (ObjectStore.Drops (· = d)) w w' ∧
      w'.store.features = w.store.features := by
  rcases remove_of_proceeds refuses.truthful (refuses.removes w.clock d notStuck) with
    ⟨store, removed, run⟩ | ⟨f, failed, -⟩
  · refine ⟨_, run, ⟨ObjectStore.drops_delete removed, rfl, rfl, rfl⟩, ?_⟩
    exact ObjectStore.features_delete removed
  · obtain ⟨store, removed, -⟩ := ObjectStore.delete_of_block? there
    cases failed.symm.trans removed

end Blocks

/-! ## What is stored -/

/-- The paths of all blocks that can be read are among finitely many. -/
theorem ObjectStore.exists_paths (s : ObjectStore) : ∃ paths : List String, ∀ d data,
    s.block? d = some data → BlockPath.write s.features d ∈ paths := by
  cases s with
  | memory objects => exact ⟨objects.keys, fun d data there => mem_list_of_block? nofun there⟩
  | directory s =>
    refine ⟨(s.disk.filesBelow s.origin).map ("/".intercalate ·), fun d data there => ?_⟩
    obtain ⟨-, held⟩ := block?_eq_some.mp there
    exact List.mem_map.mpr ⟨_, s.mem_filesBelow_of_entry? (held_directory_eq_some.mp held),
      BlockPath.intercalate_directoryNames d⟩

/-- The blocks that can be read are finitely many. -/
theorem ObjectStore.exists_stored (s : ObjectStore) :
    ∃ stored : Digests, ∀ d, d ∈ stored ↔ ∃ data, s.block? d = some data := by
  obtain ⟨paths, all⟩ := s.exists_paths
  let named := paths.filterMap (BlockPath.digest? s.features)
  refine ⟨Std.ExtTreeSet.ofList (named.filter fun d => (s.block? d).isSome), fun d => ?_⟩
  rw [Digests.mem_ofList, List.mem_filter, Option.isSome_iff_exists]
  refine and_iff_right_of_imp fun ⟨data, there⟩ => List.mem_filterMap.mpr ⟨_, all d data there, ?_⟩
  exact BlockPath.digest?_eq_some.mpr (BlockPath.read_write _ d)

namespace Collect

variable {w w' : World} {kept : Digests} {stuck : Digest → Bool}

/-- Blocks that can be read are removed but for those whose removal is refused, and these are the
errors. -/
theorem removeAll_refused {ds : List Digest} (nodup : ds.Nodup)
    (refuses : w.conduct.Refuses w.store.features stuck)
    (readable : ∀ d ∈ ds, ∃ data, w.store.block? d = some data) :
    ∃ errors w', removeAll ds w = (.done errors, w') ∧ errors.map Prod.fst = ds.filter (stuck ·) ∧
      World.Moves (ObjectStore.Drops (· ∈ ds.filter (!stuck ·))) w w' := by
  induction ds generalizing w with
  | nil => exact ⟨[], w, rfl, rfl, drops_nil w⟩
  | cons d rest ih =>
    obtain ⟨new, nodup⟩ := List.nodup_cons.mp nodup
    have later : ∀ x ∈ rest, ∃ data, w.store.block? x = some data := fun x inside =>
      readable x (List.mem_cons_of_mem _ inside)
    rcases isStuck : stuck d with _ | _
    · obtain ⟨data, there⟩ := readable d List.mem_cons_self
      obtain ⟨w₁, removed, moved, same⟩ := Blocks.remove_of_not_stuck refuses isStuck there
      have later₁ : ∀ x ∈ rest, ∃ data, w₁.store.block? x = some data := by
        intro x inside
        rw [moved.store.others x fun equal => new (equal ▸ inside)]
        exact later x inside
      obtain ⟨errors, w₂, run, named, moved'⟩ := ih nodup (same ▸ moved.conduct ▸ refuses) later₁
      have tried : (attempt (Blocks.remove d) : Program Failure _) w = (.done (.ok ()), w₁) := by
        rw [attempt, removed]
      refine ⟨errors, w₂, (removeAll_of_ok tried).trans run, ?_, ?_⟩
      · rw [named, List.filter_cons_of_neg (by simp [isStuck])]
      · rw [List.filter_cons_of_pos (by simp [isStuck])]
        exact drops_cons moved (refl w₁) moved'
    · obtain ⟨f, failed⟩ := Blocks.remove_of_stuck refuses isStuck
      have tried : (attempt (Blocks.remove d) : Program Failure _) w
          = (.done (.error f), w.ticked) := by
        rw [attempt, failed]
      have same : World.Untouched w
          { w.ticked with journal := .event (.blockKept d f) :: w.ticked.journal } :=
        IsTrans.trans _ _ _ w.untouched_ticked (untouched_logged w.ticked _)
      obtain ⟨errors, w₂, run, named, moved'⟩ :=
        ih (w := { w.ticked with journal := .event (.blockKept d f) :: w.ticked.journal }) nodup
          refuses later
      refine ⟨(d, f) :: errors, w₂, removeAll_of_error tried run, ?_, ?_⟩
      · rw [List.map_cons, named, List.filter_cons_of_pos isStuck]
      · rw [List.filter_cons_of_neg (by simp [isStuck])]
        exact ⟨moved'.store, moved'.records, moved'.pins, moved'.conduct⟩

/-! ## What is reported -/

/-- The numbers of a report are numbers of blocks, and its candidates are those that need not be
kept, in their order. -/
structure Accounts (stored kept : Digests) (report : Report) : Prop where
  total : report.total = stored.size
  retained : report.kept = (stored.filter (· ∈ kept)).size
  ascending : report.candidates.Pairwise (· < ·)
  candidates : ∀ d, d ∈ report.candidates ↔ d ∈ stored ∧ d ∉ kept

/-- Digests without repetitions are ascending when they are sorted. -/
theorem pairwise_lt_mergeSort {ds : List Digest} (nodup : ds.Nodup) :
    (ds.mergeSort fun a b => (compare a b).isLE).Pairwise (· < ·) := by
  have sorted : (ds.mergeSort fun a b => (compare a b).isLE).Pairwise fun a b =>
      (compare a b).isLE = true := by
    refine List.pairwise_mergeSort (fun _ _ _ => Std.TransCmp.isLE_trans) (fun a b => ?_) ds
    rw [Std.OrientedOrd.eq_swap (a := b) (b := a)]
    cases compare a b <;> rfl
  have apart : (ds.mergeSort fun a b => (compare a b).isLE).Nodup :=
    (List.mergeSort_perm ds _).nodup_iff.mpr nodup
  refine (sorted.and apart).imp ?_
  rintro a b ⟨le, ne⟩
  change compare a b = .lt
  rcases order : compare a b with _ | _ | _
  · rfl
  · exact absurd (Std.compare_eq_iff_eq.mp order) ne
  · rw [order] at le
    cases le

/-- A sweep that has found every block once accounts for them. -/
theorem accounts_swept {ds : List Digest} (nodup : ds.Nodup) (kept : Digests)
    (errors : List (Digest × Failure)) :
    Accounts (Std.ExtTreeSet.ofList ds) kept (swept ds kept errors) := by
  have perm : (Std.ExtTreeSet.ofList ds : Digests).toList.Perm ds := by
    refine (List.perm_ext_iff_of_nodup (Graph.nodup_toList _) nodup).mpr fun d => ?_
    rw [Std.ExtTreeSet.mem_toList, Digests.mem_ofList]
  have parts := ds.length_eq_length_filter_add (· ∈ kept)
  simp only [← decide_not] at parts
  constructor
  · rw [← Std.ExtTreeSet.length_toList, perm.length_eq]
    rfl
  · rw [← Std.ExtTreeSet.length_toList, Std.ExtTreeSet.toList_filter, (perm.filter _).length_eq]
    change ds.length - (ds.filter (· ∉ kept)).length = _
    omega
  · exact pairwise_lt_mergeSort (nodup.filter _)
  · intro d
    rw [mem_candidates, Digests.mem_ofList]

/-- Every candidate has been removed or is an error. -/
theorem deleted_add_length {ds : List Digest} {errors : List (Digest × Failure)}
    (named : errors.map Prod.fst = (ds.filter (· ∉ kept)).filter (stuck ·)) :
    (swept ds kept errors).deleted + errors.length = (swept ds kept errors).candidates.length := by
  have few : errors.length ≤ (ds.filter (· ∉ kept)).length := by
    rw [← List.length_map (f := Prod.fst), named]
    exact List.length_filter_le _ _
  change (ds.filter (· ∉ kept)).length - errors.length + errors.length
    = ((ds.filter (· ∉ kept)).mergeSort _).length
  rw [List.length_mergeSort]
  omega

/-- A sweep that has listed some blocks, each of them once, removes its candidates but for those
whose removal is refused, and these are the errors. -/
theorem sweep_refused {ds : List Digest} (nodup : ds.Nodup)
    (refuses : w.conduct.Refuses w.store.features stuck) (kept : Digests)
    (listed : Blocks.list w = (.done ds, w.ticked))
    (readable : ∀ d ∈ ds, ∃ data, w.store.block? d = some data) :
    ∃ errors w', sweep kept false w = (.done (swept ds kept errors), w') ∧
      errors.map Prod.fst = (ds.filter (· ∉ kept)).filter (stuck ·) ∧
      World.Moves (ObjectStore.Drops fun d => d ∈ ds ∧ d ∉ kept ∧ stuck d = false) w w' := by
  obtain ⟨errors, w', removed, named, moved⟩ := removeAll_refused (w := w.ticked)
    (nodup.filter (· ∉ kept)) refuses fun d h => readable d (List.mem_of_mem_filter h)
  simp only [List.mem_filter, decide_eq_true_eq, Bool.not_eq_true', and_assoc] at moved
  exact ⟨errors, w', sweep_of_removeAll listed removed, named,
    ⟨moved.store, moved.records, moved.pins, moved.conduct⟩⟩

/-- A dry run reports what has been listed and removes nothing. -/
theorem sweep_dry {ds : List Digest} {between : World}
    (listed : Blocks.list w = (.done ds, between))
    (errors : List (Digest × Failure)) : sweep kept true w
      = (.done { swept ds kept errors with deleted := 0, errors := [] }, between) := by
  rw [sweep, bind_of_done listed]
  rfl

/-- What a sweep sees of the blocks that can be read: all of them, unless the store can not list
what it holds, and then none. -/
structure Sees (s : ObjectStore) (stored seen : Digests) : Prop where
  readable : ∀ d, d ∈ stored ↔ ∃ data, s.block? d = some data
  all : s.Enumerates → seen = stored
  none : ¬ s.Enumerates → seen = ∅

/-- What a sweep sees are the blocks that are listed. -/
theorem exists_sees {s : ObjectStore} {ds : List Digest} (orderly : s.Orderly)
    (read : Blocks.digestsOf s.features s.list = .ok ds) :
    ∃ stored, Sees s stored (Std.ExtTreeSet.ofList ds) := by
  obtain ⟨stored, members⟩ := s.exists_stored
  refine ⟨stored, members, fun enumerates => ?_, fun unlisted => ?_⟩
  · refine Std.ExtTreeSet.ext_mem fun d => ?_
    rw [Digests.mem_ofList, members]
    refine ⟨Blocks.readable_of_orderly orderly read, fun ⟨data, there⟩ => ?_⟩
    exact (Blocks.mem_digestsOf read).mpr
      ⟨_, ObjectStore.mem_list_of_block? enumerates there, BlockPath.read_write _ _⟩
  · rw [ObjectStore.list_of_not_enumerates unlisted] at read
    cases read
    rfl

/-- A sweep with storage that fails to remove any set of blocks.  Whatever else the store holds, what
is listed as a block is one; a store into which nothing but blocks has been written is like this.

If some path that is listed can not be read, the sweep fails before anything is removed.  If there is
no such path it gives an answer.  It has removed just those blocks it sees that need not be kept and
that it could remove, and all others can be read as before.  What it reports is the number of blocks
it sees and of those that must be kept; the others in ascending order, each of which has been removed
or is an error; and as errors just those of them that could not be removed, each of them once.  A dry
run changes nothing and reports the same, but no removals and no errors.

It sees all blocks that can be read, but none if the path of the store is empty; then it reports none
and removes none. -/
theorem sweep_accounts (orderly : w.store.Orderly)
    (refuses : w.conduct.Refuses w.store.features stuck) (kept : Digests) :
    (w.store.Unreadable →
      ∀ dryRun, sweep kept dryRun w = (.failed (.io .invalidName), w.ticked)) ∧
    (¬ w.store.Unreadable → ∃ stored seen, Sees w.store stored seen ∧
      ∃ report w', sweep kept false w = (.done report, w') ∧
        World.Moves (ObjectStore.Drops fun d => d ∈ seen ∧ d ∉ kept ∧ stuck d = false) w w' ∧
        Accounts seen kept report ∧
        report.deleted + report.errors.length = report.candidates.length ∧
        (report.errors.map Prod.fst).Nodup ∧
        (∀ d, d ∈ report.errors.map Prod.fst ↔ d ∈ report.candidates ∧ stuck d = true) ∧
        ∃ v, sweep kept true w = (.done { report with deleted := 0, errors := [] }, v) ∧
          World.Untouched w v) := by
  have proceeds := refuses.lists w.clock
  refine ⟨fun unreadable dryRun => ?_, fun readable => ?_⟩
  · exact sweep_of_unreadable kept dryRun refuses.truthful proceeds unreadable
  obtain ⟨ds, listed, read⟩ := Blocks.list_of_readable refuses.truthful proceeds readable
  have nodup := Blocks.nodup_of_orderly orderly read
  obtain ⟨stored, sees⟩ := exists_sees orderly read
  obtain ⟨errors, w', run, named, moved⟩ := sweep_refused nodup refuses kept listed fun d =>
    Blocks.readable_of_orderly orderly read
  refine ⟨stored, _, sees, swept ds kept errors, w', run, ?_, accounts_swept nodup kept errors,
    deleted_add_length named, ?_, fun d => ?_, w.ticked, sweep_dry listed errors,
    w.untouched_ticked⟩
  · simpa only [Digests.mem_ofList] using moved
  · change (errors.map Prod.fst).Nodup
    rw [named]
    exact (nodup.filter _).filter _
  · change d ∈ errors.map Prod.fst ↔ _
    rw [named, List.mem_filter, mem_candidates, List.mem_filter, decide_eq_true_eq]

/-- A block that nobody needs. -/
def lostBlock : Bytes := Bytes.ofText "lost"

/-- A world with a directory at an empty path, into which this block has been written. -/
def unseenWorld : World := (Blocks.put lostBlock (World.fresh (.directory .nameless) ∅)).2

theorem written_unseenWorld : unseenWorld.store.Written := by
  have vacant : Directory.nameless.Vacant :=
    Directory.vacant_of_empty (.of_level (by decide) rfl (by decide) (by decide) (by decide))
  have empty : (World.fresh (.directory .nameless) ∅).store.Written := .directory vacant.clear
    fun names nonempty => Disk.entry?_empty (List.append_ne_nil_of_right_ne_nil _ nonempty)
  rw [unseenWorld]
  exact .put empty rfl lostBlock

/-- A world into whose store this block has been written, and a note. -/
def mixedWorld : World :=
  ((Storage.put "block3/notes.txt" [] : Program Failure Unit)
    (World.fresh (storeOf [lostBlock]) ∅)).2

/-- A block that need not be kept is there after a sweep that has met with no refusal.  In a
directory at an empty path it is not even counted, and with a note in the store the sweep fails. -/
theorem not_accounted : unseenWorld.store.Written ∧
    ((sweep ∅ false unseenWorld).1.value?.map fun report =>
        (report.total, report.deleted, report.candidates, report.errors.length))
      = some (0, 0, [], 0) ∧
    unseenWorld.store.block? (Digest.of lostBlock) = some lostBlock ∧
    (sweep ∅ false unseenWorld).2.store.block? (Digest.of lostBlock) = some lostBlock ∧
    (sweep ∅ false mixedWorld).1.isDone = false ∧
    mixedWorld.store.block? (Digest.of lostBlock) = some lostBlock ∧
    (sweep ∅ false mixedWorld).2.store.block? (Digest.of lostBlock) = some lostBlock :=
  ⟨written_unseenWorld, by decide +kernel⟩

/-! ### A block that can not be removed -/

/-- A block that is to be kept, and one that can not be removed. -/
def keptBlock : Bytes := Bytes.ofText "kept"

@[inherit_doc keptBlock] def stuckBlock : Bytes := Bytes.ofText "stuck"

/-- A store with these blocks and the one that nobody needs. -/
def fewBlocks : ObjectStore := storeOf [keptBlock, stuckBlock, lostBlock]

/-- A world whose storage fails to remove one of them. -/
def refusingWorld (store : ObjectStore) : World :=
  { World.fresh store ∅ with conduct := .refusing store.features (· = Digest.of stuckBlock) }

theorem holds_fewBlocks : fewBlocks.base? = none ∧
    fewBlocks.block? (Digest.of stuckBlock) = some stuckBlock ∧
    fewBlocks.block? (Digest.of lostBlock) = some lostBlock ∧
    Digest.of stuckBlock ≠ Digest.of keptBlock ∧ Digest.of lostBlock ≠ Digest.of keptBlock ∧
    Digest.of lostBlock ≠ Digest.of stuckBlock := by
  decide +kernel

/-- Of the two blocks that need not be kept, one is removed and the other is an error. -/
theorem sweep_accounts_refusingWorld : ∃ report w',
    sweep {Digest.of keptBlock} false (refusingWorld fewBlocks) = (.done report, w') ∧
      Digest.of stuckBlock ∈ report.errors.map Prod.fst ∧
      w'.store.block? (Digest.of stuckBlock) = some stuckBlock ∧
      w'.store.block? (Digest.of lostBlock) = none := by
  have regular : fewBlocks.Regular := (written_storeOf _).regular
  obtain ⟨noBase, there, there', apart, apart', differ⟩ := holds_fewBlocks
  -- What the blocks are does not matter from here on.
  generalize fewBlocks = store at *
  rw [refusingWorld]
  generalize Digest.of keptBlock = kept at *
  generalize Digest.of stuckBlock = stuck at *
  generalize Digest.of lostBlock = lost at *
  have enumerates : store.Enumerates := by
    rw [ObjectStore.Enumerates, noBase]
    exact (Option.some_ne_none _).symm
  obtain ⟨stored, seen, sees, report, w', run, moved, accounts, -, -, errors, -⟩ :=
    (sweep_accounts
      (w := { World.fresh store ∅ with conduct := .refusing store.features (· = stuck) })
      regular.orderly (Conduct.refuses_refusing _ _) {kept}).2 regular.not_unreadable
  have isSeen : ∀ {d data}, store.block? d = some data → d ∈ seen := by
    intro d data there
    rw [sees.all enumerates]
    exact (sees.readable d).mpr ⟨data, there⟩
  have outside : ∀ {d}, d ≠ kept → d ∉ ({kept} : Digests) := by
    intro d other inside
    rw [Std.ExtTreeSet.singleton_eq_insert, Graph.mem_insert] at inside
    exact inside.elim other Std.ExtTreeSet.not_mem_empty
  have candidate : stuck ∈ report.candidates :=
    (accounts.candidates stuck).mpr ⟨isSeen there, outside apart⟩
  refine ⟨report, w', run, (errors stuck).mpr ⟨candidate, by simp⟩, ?_, ?_⟩
  · exact (moved.store.others stuck (by simp)).trans there
  · refine moved.store.gone lost ⟨isSeen there', outside apart', ?_⟩
    simpa using differ

end Collect

end PinnedStore
