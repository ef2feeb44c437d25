import PinnedStore.Proofs.Collect
import PinnedStore.Proofs.Pin.Walk
import PinnedStore.Sample

/-!
# Questions and collections agree

What a collection keeps and whether a node is pinned are found out in two ways.  A collection reads
on from all recursive pins at once and keeps what it has read, the pins among it.  A question looks
at one pin after the other, only at what lies strictly below it, and stops as soon as it has an
answer.

They agree on every node: of what a pin reaches, the pin itself is the one node that does not lie
below it, and a pin is known to be pinned before anything is read.  So where the one gives an answer
the other does so too, for any node, whether it is there or not.

It follows that a sweep takes away just those blocks that a question finds no reason to keep, as far
as it gets to see them.  It sees every block that can be read, but none in a directory at an empty
path, which lists nothing; and it fails where a path that is listed can not be read.

* `ObjectStore.Drops`: just these blocks are gone, and `ObjectStore.Removes` how they went.
* `Collect.removeAll_honest`, `Collect.sweep_of_list`: what a sweep removes, where storage is honest.
* `Collect.sweep_of_unreadable`: when a sweep fails.
* `Collect.removeAll_done`, `Collect.sweep_done`: what a sweep has removed of which no removal has
  failed.
* `Collect.retained_agrees`: a node is kept if and only if a question finds a reason for it, and a
  sweep removes all other blocks.
-/

namespace PinnedStore

open Program

namespace ObjectStore

/-- Just these blocks are gone, and all others can be read as before. -/
structure Drops (lost : Digest → Prop) (s s' : ObjectStore) : Prop where
  gone : ∀ d, lost d → s'.block? d = none
  others : ∀ d, ¬ lost d → s'.block? d = s.block? d

variable {s s' s'' : ObjectStore} {lost lost' : Digest → Prop} {d : Digest}

theorem drops_delete (h : s.delete (BlockPath.write s.features d) = .ok s') : Drops (· = d) s s' :=
  ⟨fun d' same => (block?_delete h d').trans (if_pos same),
    fun d' other => (block?_delete h d').trans (if_neg other)⟩

theorem Drops.trans (first : Drops lost s s') (second : Drops lost' s' s'') :
    Drops (fun d => lost d ∨ lost' d) s s'' := by
  constructor
  · intro d isLost
    by_cases late : lost' d
    · exact second.gone d late
    · rw [second.others d late]
      exact first.gone d (isLost.resolve_right late)
  · intro d stays
    rw [not_or] at stays
    rw [second.others d stays.2, first.others d stays.1]

/-- These blocks have been removed one after the other, and every removal has gone through. -/
inductive Removes : List Digest → ObjectStore → ObjectStore → Prop
  | nil (s : ObjectStore) : Removes [] s s
  | cons {s between s' : ObjectStore} {d : Digest} {rest : List Digest}
    (removed : s.delete (BlockPath.write s.features d) = .ok between)
    (others : Removes rest between s') : Removes (d :: rest) s s'

theorem Removes.drops {ds : List Digest} (removes : Removes ds s s') : Drops (· ∈ ds) s s' := by
  induction removes with
  | nil s => exact ⟨fun _ h => absurd h List.not_mem_nil, fun _ _ => rfl⟩
  | cons removed _ ih =>
    have dropped := (drops_delete removed).trans ih
    simpa only [← List.mem_cons] using dropped

/-- It makes no difference whether a block counts as lost that could not be read in the first
place. -/
theorem Drops.congr (drops : Drops lost s s')
    (same : ∀ d data, s.block? d = some data → (lost d ↔ lost' d)) : Drops lost' s s' := by
  have still : ∀ d, s.block? d = none → s'.block? d = none := by
    intro d absent
    by_cases isLost : lost d
    · exact drops.gone d isLost
    · exact (drops.others d isLost).trans absent
  constructor
  · intro d isLost
    rcases there : s.block? d with _ | data
    · exact still d there
    · exact drops.gone d ((same d data there).mpr isLost)
  · intro d stays
    rcases there : s.block? d with _ | data
    · exact still d there
    · exact (drops.others d fun isLost => stays ((same d data there).mp isLost)).trans there

/-- Where nothing could be read there is nothing to remove. -/
theorem drops_of_absent (absent : s.block? d = none) : Drops (· = d) s s := by
  refine ⟨fun d' same => ?_, fun d' _ => rfl⟩
  rw [same]
  exact absent

end ObjectStore

variable {w w' w₁ : World} {d : Digest} {kept : Digests}

/-- Where storage is honest, a block is gone after its removal has been tried, whether or not there
was one. -/
theorem Blocks.attempt_remove_honest (honest : w.conduct = .honest) (d : Digest) :
    ∃ result w', (attempt (Blocks.remove d) : Program Failure _) w = (.done result, w') ∧
      World.Moves (ObjectStore.Drops (· = d)) w w' := by
  rcases Blocks.remove_cases_honest honest d with ⟨store, removed, run⟩ | ⟨f, stuck, run⟩
  · refine ⟨.ok (), _, by rw [attempt, run], ?_⟩
    exact ⟨ObjectStore.drops_delete removed, rfl, rfl, rfl⟩
  · have absent : w.store.block? d = none := by
      rw [Option.eq_none_iff_forall_ne_some]
      intro data there
      obtain ⟨store, removed, -⟩ := ObjectStore.delete_of_block? there
      cases stuck.symm.trans removed
    refine ⟨.error f, w.ticked, by rw [attempt, run], ?_⟩
    exact ⟨ObjectStore.drops_of_absent absent, rfl, rfl, rfl⟩

namespace Collect

theorem drops_nil (w : World) : World.Moves (ObjectStore.Drops (· ∈ [])) w w :=
  ⟨⟨fun _ h => absurd h List.not_mem_nil, fun _ _ => rfl⟩, rfl, rfl, rfl⟩

theorem drops_cons {ds : List Digest} {w₂ w₃ : World}
    (first : World.Moves (ObjectStore.Drops (· = d)) w w₁) (same : World.Untouched w₁ w₂)
    (others : World.Moves (ObjectStore.Drops (· ∈ ds)) w₂ w₃) :
    World.Moves (ObjectStore.Drops (· ∈ d :: ds)) w w₃ := by
  have dropped := first.store.trans (same.store ▸ others.store)
  simp only [← List.mem_cons] at dropped
  exact ⟨dropped, others.records.trans (same.records.trans first.records),
    others.pins.trans (same.pins.trans first.pins),
    others.conduct.trans (same.conduct.trans first.conduct)⟩

theorem removeAll_of_ok {rest : List Digest}
    (tried : (attempt (Blocks.remove d) : Program Failure _) w = (.done (.ok ()), w₁)) :
    removeAll (d :: rest) w = removeAll rest w₁ := by
  rw [removeAll, bind_of_done tried]

/-- A removal that fails is logged, and the others go on. -/
theorem removeAll_of_error {rest : List Digest} {f : Failure} {errors : List (Digest × Failure)}
    (tried : (attempt (Blocks.remove d) : Program Failure _) w = (.done (.error f), w₁))
    (run : removeAll rest { w₁ with journal := .event (.blockKept d f) :: w₁.journal }
      = (.done errors, w')) : removeAll (d :: rest) w = (.done ((d, f) :: errors), w') := by
  have logged : (log (.blockKept d f) : Program Failure Unit) w₁
      = (.done (), { w₁ with journal := .event (.blockKept d f) :: w₁.journal }) := rfl
  rw [removeAll, bind_of_done tried]
  dsimp only
  rw [bind_of_done logged, bind_of_done run]
  rfl

theorem untouched_logged (w : World) (notice : Log.Notice) :
    World.Untouched w { w with journal := notice :: w.journal } := ⟨rfl, rfl, rfl, rfl⟩

/-- Where storage is honest, the blocks that are to be removed are gone. -/
theorem removeAll_honest (honest : w.conduct = .honest) (ds : List Digest) :
    ∃ errors w', removeAll ds w = (.done errors, w') ∧
      World.Moves (ObjectStore.Drops (· ∈ ds)) w w' := by
  induction ds generalizing w with
  | nil => exact ⟨[], w, rfl, drops_nil w⟩
  | cons d rest ih =>
    obtain ⟨result, w₁, tried, moved₁⟩ := Blocks.attempt_remove_honest honest d
    cases result with
    | ok _ =>
      obtain ⟨errors, w₂, run, moved₂⟩ := ih (moved₁.conduct.trans honest)
      exact ⟨errors, w₂, (removeAll_of_ok tried).trans run, drops_cons moved₁ (refl w₁) moved₂⟩
    | error f =>
      obtain ⟨errors, w₂, run, moved₂⟩ :=
        ih (w := { w₁ with journal := .event (.blockKept d f) :: w₁.journal })
          (moved₁.conduct.trans honest)
      exact ⟨(d, f) :: errors, w₂, removeAll_of_error tried run,
        drops_cons moved₁ (untouched_logged w₁ _) moved₂⟩

/-- Where no removal has failed, every one has gone through. -/
theorem removeAll_done {ds : List Digest} (truthful : w.conduct.lies = [])
    (h : removeAll ds w = (.done [], w')) : World.Moves (ObjectStore.Removes ds) w w' := by
  induction ds generalizing w with
  | nil =>
    cases h
    exact ⟨.nil _, rfl, rfl, rfl⟩
  | cons d rest ih =>
    obtain ⟨result, between, tried, h⟩ := done_of_bind h
    cases result with
    | ok _ =>
      rcases Blocks.remove_cases truthful d with ⟨store, removed, run⟩ | ⟨not, -⟩
      · cases run.symm.trans (done_of_attempt tried)
        have others := ih (w := { w.ticked with store }) truthful h
        exact ⟨.cons removed others.store, others.records, others.pins, others.conduct⟩
      · exact absurd (done_of_attempt tried) (not between)
    | error f =>
      obtain ⟨_, _, -, h⟩ := done_of_bind h
      obtain ⟨_, _, -, h⟩ := done_of_bind h
      cases h

/-- What a sweep reports that has found these blocks. -/
def swept (ds : List Digest) (kept : Digests) (errors : List (Digest × Failure)) : Report :=
  let candidates := ds.filter (· ∉ kept)
  { total := ds.length
    kept := ds.length - candidates.length
    deleted := candidates.length - errors.length
    candidates := candidates.mergeSort fun a b => (compare a b).isLE
    errors }

theorem mem_candidates {ds : List Digest} {errors : List (Digest × Failure)} :
    d ∈ (swept ds kept errors).candidates ↔ d ∈ ds ∧ d ∉ kept := by
  rw [swept, List.mem_mergeSort, List.mem_filter, decide_eq_true_eq]

/-- A sweep that has listed some blocks and removed its candidates. -/
theorem sweep_of_removeAll {ds : List Digest} {errors : List (Digest × Failure)} {between : World}
    (listed : Blocks.list w = (.done ds, between))
    (removed : removeAll (ds.filter (· ∉ kept)) between = (.done errors, w')) :
    sweep kept false w = (.done (swept ds kept errors), w') := by
  rw [sweep, bind_of_done listed]
  exact (bind_of_done removed).trans rfl

/-- Where storage is honest and the blocks can be listed, a sweep removes just its candidates. -/
theorem sweep_of_list (kept : Digests) {ds : List Digest} (honest : w.conduct = .honest)
    (listed : Blocks.list w = (.done ds, w.ticked)) :
    ∃ errors w', sweep kept false w = (.done (swept ds kept errors), w') ∧
      World.Moves (ObjectStore.Drops fun d => d ∈ ds ∧ d ∉ kept) w w' := by
  obtain ⟨errors, w', removed, dropped⟩ :=
    removeAll_honest (w := w.ticked) honest (ds.filter (· ∉ kept))
  simp only [List.mem_filter, decide_eq_true_eq] at dropped
  exact ⟨errors, w', sweep_of_removeAll listed removed,
    ⟨dropped.store, dropped.records, dropped.pins, dropped.conduct⟩⟩

/-- What a sweep that gives an answer has listed and removed. -/
theorem swept_of_sweep {report : Report} (h : sweep kept false w = (.done report, w')) :
    ∃ ds between, Blocks.list w = (.done ds, between) ∧
      removeAll (ds.filter (· ∉ kept)) between = (.done report.errors, w') ∧
      report = swept ds kept report.errors := by
  obtain ⟨ds, between, listed, h⟩ := done_of_bind h
  obtain ⟨errors, w₁, removed, reported⟩ := done_of_bind h
  cases reported
  exact ⟨ds, between, listed, removed, rfl⟩

/-- A sweep that has removed all its candidates. -/
theorem sweep_done {report : Report} (truthful : w.conduct.lies = [])
    (swept : sweep kept false w = (.done report, w')) (errors : report.errors = []) :
    ∃ ds between, Blocks.list w = (.done ds, between) ∧
      World.Moves (ObjectStore.Drops fun d => d ∈ ds ∧ d ∉ kept) w w' := by
  obtain ⟨ds, between, listed, removed, -⟩ := swept_of_sweep swept
  obtain ⟨moved, -⟩ := Blocks.list_done truthful listed
  rw [errors] at removed
  have removes := removeAll_done (moved.truthful truthful) removed
  have dropped := removes.store.drops
  simp only [List.mem_filter, decide_eq_true_eq] at dropped
  exact ⟨ds, between, listed, moved.store ▸ dropped, removes.records.trans moved.records,
    removes.pins.trans moved.pins, removes.conduct.trans moved.conduct⟩

/-- A path that can not be read ends a sweep before it has removed anything. -/
theorem sweep_of_unreadable (kept : Digests) (dryRun : Bool) (truthful : w.conduct.lies = [])
    (proceeds : w.conduct.verdict w.clock .list = .proceed) (unreadable : w.store.Unreadable) :
    sweep kept dryRun w = (.failed (.io .invalidName), w.ticked) := by
  rw [sweep, bind_apply, Blocks.list_of_unreadable truthful proceeds unreadable]

/-- Where all blocks that are listed must be kept, a sweep removes nothing. -/
theorem sweep_again {ds : List Digest} (listed : Blocks.list w = (.done ds, w.ticked))
    (all : ∀ d ∈ ds, d ∈ kept) :
    ∃ report w', sweep kept false w = (.done report, w') ∧ report.candidates = [] ∧
      report.deleted = 0 ∧ w'.store = w.store := by
  have none : ds.filter (· ∉ kept) = [] := by
    rw [List.filter_eq_nil_iff]
    intro d h
    simpa using all d h
  have removed : removeAll (ds.filter (· ∉ kept)) w.ticked = (.done [], w.ticked) := by
    rw [none]
    rfl
  refine ⟨_, w.ticked, sweep_of_removeAll listed removed, ?_, ?_, rfl⟩
  · dsimp only [swept]
    rw [none, List.mergeSort_nil]
  · dsimp only [swept]
    rw [none]
    rfl

/-- Where what must be kept is known, every question gives an answer, and it gives a reason for just
those nodes that are kept.

A sweep then fails, with nothing removed, if some path that is listed can not be read, and it gives
an answer if there is no such path.  Its candidates are the blocks that are listed and for which
there is no reason.  Just the blocks for which there is no reason are gone after it, all others can
be read as before; unless the store has an empty path and lists nothing, and then nothing is
changed. -/
theorem retained_agrees (honest : w.conduct = .honest) (h : retained w = (.done kept, w₁)) :
    (∀ d, ∃ reason v, Pin.classify d .all w = (.done reason, v) ∧ (reason ≠ none ↔ d ∈ kept)) ∧
    (w.store.Unreadable → sweep kept false w₁ = (.failed (.io .invalidName), w₁.ticked) ∧
      w₁.store = w.store) ∧
    (¬ w.store.Unreadable → ∃ report w₂, sweep kept false w₁ = (.done report, w₂) ∧
      (∀ d, d ∈ report.candidates ↔
        (∃ path ∈ w.store.list, BlockPath.read w.store.features path = .ok (some d)) ∧
          ∃ v, Pin.classify d .all w = (.done none, v)) ∧
      (w.store.Enumerates →
        ObjectStore.Drops (fun d => ∃ v, Pin.classify d .all w = (.done none, v))
          w.store w₂.store) ∧
      (¬ w.store.Enumerates → w₂.store = w.store)) := by
  have truthful := World.truthful_of_honest honest
  obtain ⟨moved, fetchable, members⟩ := retained_done truthful h
  have honest₁ := moved.conduct.trans honest
  have truthful₁ := World.truthful_of_honest honest₁
  have proceeds := World.proceeds_of_honest honest₁ .list
  have agrees : ∀ d, ∃ reason v, Pin.classify d .all w = (.done reason, v) ∧
      (reason ≠ none ↔ d ∈ kept) := by
    intro d
    obtain ⟨reason, v, answered, decides⟩ := Pin.classify_honest honest fetchable d
    exact ⟨reason, v, answered, decides.trans (members d).symm⟩
  have unneeded : ∀ d, (∃ v, Pin.classify d .all w = (.done none, v)) ↔ d ∉ kept := by
    intro d
    obtain ⟨reason, v, answered, decides⟩ := agrees d
    rw [← decides, not_not, answered]
    constructor
    · rintro ⟨_, same⟩
      cases same
      rfl
    · rintro rfl
      exact ⟨v, rfl⟩
  simp only [unneeded]
  rw [moved.store]
  refine ⟨agrees, fun unreadable => ?_, fun readable => ?_⟩
  · exact ⟨sweep_of_unreadable kept false truthful₁ proceeds unreadable, rfl⟩
  obtain ⟨ds, listed, read⟩ := Blocks.list_of_readable truthful₁ proceeds readable
  obtain ⟨errors, w₂, run, dropped⟩ := sweep_of_list kept honest₁ listed
  refine ⟨swept ds kept errors, w₂, run, fun d => ?_, fun enumerates => ?_, fun unlisted => ?_⟩
  · rw [mem_candidates, Blocks.mem_digestsOf read]
  · refine dropped.store.congr fun d data there => and_iff_right ?_
    exact Blocks.mem_of_list_done truthful₁ enumerates listed there
  · rw [ObjectStore.list_of_not_enumerates unlisted] at read
    cases read
    obtain ⟨report, w', run', -, -, same⟩ := sweep_again listed (List.forall_mem_nil (· ∈ kept))
    cases run.symm.trans run'
    exact same

/-- A world in whose store there is a block that nobody needs, and a note. -/
def notedBlock : World :=
  let block := ObjectStore.inMemory.put
    (BlockPath.write ObjectStore.inMemory.features (Sample.repeated 4)) []
  World.fresh (block.2.put "block3/notes.txt" []).2 ∅

/-- A world with this block in a directory at an empty path. -/
def unlistedBlock : World :=
  let block := (ObjectStore.directory .nameless).put
    (BlockPath.write Directory.features (Sample.repeated 4)) []
  World.fresh block.2 ∅

/-- Nothing needs to be kept, so there is no reason for a block that can be read.  Where there is a
note among the blocks the sweep fails, and where they can not be listed it gives an answer; and the
block is still there. -/
theorem not_removed :
    ((retained notedBlock).1.value? = some ∅ ∧
      (Pin.classify (Sample.repeated 4) .all notedBlock).1.value? = some none ∧
      notedBlock.store.block? (Sample.repeated 4) = some [] ∧
      (sweep ∅ false (retained notedBlock).2).1.isDone = false ∧
      (sweep ∅ false (retained notedBlock).2).2.store.block? (Sample.repeated 4) = some []) ∧
    (retained unlistedBlock).1.value? = some ∅ ∧
      (Pin.classify (Sample.repeated 4) .all unlistedBlock).1.value? = some none ∧
      unlistedBlock.store.block? (Sample.repeated 4) = some [] ∧
      (sweep ∅ false (retained unlistedBlock).2).1.isDone = true ∧
      (sweep ∅ false (retained unlistedBlock).2).2.store.block? (Sample.repeated 4) = some [] := by
  decide +kernel

/-! ### Nested pins -/

/-- A chain of three nodes, and a node by itself. -/
def chainStore : ObjectStore :=
  let linked : List (UInt8 × List UInt8) := [(1, [2]), (2, [3]), (3, []), (4, [])]
  let node (targets : List UInt8) : Node :=
    ⟨targets.map fun t => Link.unnamed (Sample.repeated t), []⟩
  .memory (Std.ExtTreeMap.ofList (linked.map fun (d, targets) =>
    (BlockPath.write ObjectStore.inMemory.features (Sample.repeated d), (node targets).encode)))

/-- The first two nodes of the chain are pinned with everything below them. -/
def chainWorld : World :=
  { World.fresh chainStore ∅ with
    pins := ⟨{Sample.repeated 1, Sample.repeated 2}, ∅, ∅, none⟩ }

/-- What must be kept is known, and all blocks can be listed.  There is one for which there is no
reason. -/
theorem holds_chainWorld : (retained chainWorld).1.isDone = true ∧
    (∀ path ∈ chainStore.list, (BlockPath.read chainStore.features path).isOk) ∧
    (Pin.classify (Sample.repeated 4) .all chainWorld).1.value? = some none ∧
    (Pin.classify (Sample.repeated 3) .all chainWorld).1.value?
      = some (some (.indirect (Sample.repeated 1))) := by
  decide +kernel

/-- A pin below another one.  The block that belongs to neither is removed. -/
theorem retained_agrees_chainWorld : ∃ kept w₁ report w₂, retained chainWorld = (.done kept, w₁) ∧
    sweep kept false w₁ = (.done report, w₂) ∧
    (∀ d, ∃ reason v, Pin.classify d .all chainWorld = (.done reason, v) ∧
      (reason ≠ none ↔ d ∈ kept)) ∧
    w₂.store.block? (Sample.repeated 4) = none ∧
    w₂.store.block? (Sample.repeated 3) = chainStore.block? (Sample.repeated 3) := by
  obtain ⟨isDone, isRead, free, bound⟩ := holds_chainWorld
  obtain ⟨kept, w₁, collected⟩ := exists_done isDone
  have readable : ¬ chainWorld.store.Unreadable := by
    rintro ⟨path, listed, fault⟩
    have fine := isRead path listed
    rw [show BlockPath.read chainStore.features path = _ from fault] at fine
    cases fine
  obtain ⟨agrees, -, swept⟩ := retained_agrees (w := chainWorld) rfl collected
  obtain ⟨report, w₂, run, -, dropped, -⟩ := swept readable
  have dropped := dropped nofun
  refine ⟨kept, w₁, report, w₂, collected, run, agrees, ?_, ?_⟩
  · exact dropped.gone _ ⟨_, done_of_value? free⟩
  · refine dropped.others _ ?_
    rintro ⟨v, same⟩
    cases (done_of_value? bound).symm.trans same

end Collect

end PinnedStore
