import PinnedStore.Proofs.Pin.Record

/-!
# The two parts of a flush

A flush is a commit and cleaning up.  The commit stores a whole record of the pins and then moves
the pointer; cleaning up removes what only the old record was made of.

In storage that tells no lies both come to a piece of work on the store that follows from the pins
alone: the blocks of the record are stored one after the other, and the stale nodes are removed one
after the other, as far as they can be removed.  Storage that fails can only cut this work short.
The removal of a node that fails is not a failure of the flush.

* `recordNodes`, `recorded`: the nodes of the record of pins, and the pins once they are flushed.
* `record_of_stored`: the nodes of a record, wherever they are stored, stand for the pins.
* `flush_eq`: a flush is a commit, which ends with the pointer, and cleaning up.
* `commit_run`, `commit_cases`: what becomes of a commit.
* `cleanUp_run`, `CleanedUp.sheds`: what becomes of cleaning up.
* `flush_run`: what becomes of the whole.
-/

namespace PinnedStore.Pin

open Program PinSet ObjectStore

variable {known : Set Bytes} {w w' v : World} {s : ObjectStore} {codec : Codec} {pins : Pins}

/-! ## The record of pins -/

section

variable (codec : Codec) (pins : Pins)

/-- The root of the record of pins. -/
def recordRoot : Node :=
  rootNode (codec.top (onceEach pins.direct)) (codec.top (onceEach pins.recursive))

/-- The nodes of the record of pins. -/
def recordNodes : List Node :=
  recordRoot codec pins
    :: codec.written (onceEach pins.direct) ++ codec.written (onceEach pins.recursive)

/-- The blocks of the record of pins, and the block of the empty node, whose name is part of the
format. -/
def recordBlocks : Set Bytes :=
  { data | data ∈ Node.empty.encode :: (recordNodes codec pins).map Node.encode }

/-- The pins once they are flushed. -/
def recorded : Pins :=
  { pins with
    internal := Std.ExtTreeSet.ofList ((recordNodes codec pins).map Node.digest)
    root := some (recordRoot codec pins).digest }

/-- Whether the pins are few enough to be counted in memory. -/
structure Countable : Prop where
  direct : pins.direct.size < uncountable
  recursive : pins.recursive.size < uncountable

end

theorem empty_mem_recordBlocks : Node.empty.encode ∈ recordBlocks codec pins := List.mem_cons_self

theorem encode_mem_recordBlocks {n : Node} (inside : n ∈ recordNodes codec pins) :
    n.encode ∈ recordBlocks codec pins :=
  List.mem_cons_of_mem _ (List.mem_map_of_mem inside)

theorem mem_recordNodes_direct {n : Node} (inside : n ∈ codec.written (onceEach pins.direct)) :
    n ∈ recordNodes codec pins :=
  List.mem_append_left _ (List.mem_cons_of_mem _ inside)

theorem mem_recordNodes_recursive {n : Node}
    (inside : n ∈ codec.written (onceEach pins.recursive)) : n ∈ recordNodes codec pins :=
  List.mem_append_right _ inside

theorem mem_internal_recorded {n : Node} (inside : n ∈ recordNodes codec pins) :
    n.digest ∈ (recorded codec pins).internal := by
  rw [recorded, Digests.mem_ofList]
  exact List.mem_map_of_mem inside

theorem blocks_direct_subset :
    codec.blocks (onceEach pins.direct) ⊆ recordBlocks codec pins := by
  intro data inside
  rcases List.mem_cons.mp inside with rfl | inside
  · exact empty_mem_recordBlocks
  · obtain ⟨n, isNode, rfl⟩ := List.mem_map.mp inside
    exact encode_mem_recordBlocks (mem_recordNodes_direct isNode)

theorem blocks_recursive_subset :
    codec.blocks (onceEach pins.recursive) ⊆ recordBlocks codec pins := by
  intro data inside
  rcases List.mem_cons.mp inside with rfl | inside
  · exact empty_mem_recordBlocks
  · obtain ⟨n, isNode, rfl⟩ := List.mem_map.mp inside
    exact encode_mem_recordBlocks (mem_recordNodes_recursive isNode)

theorem decode_rootNode (direct recursive : Digest) :
    Node.decode (rootNode direct recursive).encode = .ok (rootNode direct recursive) := by
  refine Node.decode_encode ⟨show 2 < UInt64.size by decide, fun l h => ?_,
    show 0 < UInt64.size by decide⟩
  rcases List.mem_cons.mp h with rfl | h
  · show (Bytes.ofText directName).length < UInt64.size
    decide
  · rw [List.mem_singleton.mp h]
    show (Bytes.ofText recursiveName).length < UInt64.size
    decide

/-- One of the two sets of a record. -/
theorem holds_of_stored (distinct : Distinct known) {ds : Digests}
    (isKnown : codec.blocks (onceEach ds) ⊆ known) (fits : ds.size < uncountable)
    (stored : ∀ n ∈ codec.written (onceEach ds), s.block? n.digest = some n.encode)
    {holder : Node} {name : String} (link : holder.link? name = some (codec.top (onceEach ds))) :
    ∃ met, Holds s.node? holder name met ds ∧
      ∀ d, d ∈ met ↔ d ∈ (codec.written (onceEach ds)).map Node.digest := by
  rw [← length_onceEach] at fits
  obtain ⟨met, found, decodes, sums, names⟩ := codec.decodes_written distinct isKnown
    (Nat.lt_of_le_of_lt (length_merged_le _) fits) stored
  exact ⟨met, ⟨_, found, link, decodes, by rw [sums, digests_onceEach]⟩, fun d => names.mem_iff⟩

/-- Wherever the nodes of a record are stored, they stand for the pins. -/
theorem record_of_stored (distinct : Distinct known) (isKnown : recordBlocks codec pins ⊆ known)
    (few : Countable pins)
    (stored : ∀ n ∈ recordNodes codec pins, s.block? n.digest = some n.encode) :
    Record s.node? (recordRoot codec pins).digest (recorded codec pins) := by
  have linkDirect : (recordRoot codec pins).link? directName
      = some (codec.top (onceEach pins.direct)) := rfl
  have linkRecursive : (recordRoot codec pins).link? recursiveName
      = some (codec.top (onceEach pins.recursive)) := rfl
  obtain ⟨metDirect, direct, namesDirect⟩ := holds_of_stored distinct
    (blocks_direct_subset.trans isKnown) few.direct
    (fun n h => stored n (mem_recordNodes_direct h)) linkDirect
  obtain ⟨metRecursive, recursive, namesRecursive⟩ := holds_of_stored distinct
    (blocks_recursive_subset.trans isKnown) few.recursive
    (fun n h => stored n (mem_recordNodes_recursive h)) linkRecursive
  have there : s.node? (recordRoot codec pins).digest = some (recordRoot codec pins) :=
    Graph.node?_eq_some.mpr ⟨_, stored _ List.mem_cons_self, decode_rootNode _ _⟩
  have internal : (Std.ExtTreeSet.ofList ((recordNodes codec pins).map Node.digest) : Digests)
      = Std.ExtTreeSet.ofList ((recordRoot codec pins).digest :: metRecursive ++ metDirect) := by
    refine Std.ExtTreeSet.ext_mem fun d => ?_
    rw [recordNodes, List.map_append, List.map_cons, mem_internal, mem_internal, namesDirect,
      namesRecursive]
    tauto
  rw [recorded, internal]
  exact .intro there recursive direct

/-! ## The parts of a flush -/

/-- Stores the record of pins.  The answer is its root and its nodes. -/
def storeRecord (codec : Codec) (pins : Pins) : Program Error (Digest × Digests) := do
  let (direct, directNodes) ← writeSet codec pins.direct
  let (recursive, recursiveNodes) ← writeSet codec pins.recursive
  let root ← mapError .store (Graph.add (rootNode direct recursive))
  return (root, Std.ExtTreeSet.ofList (root :: directNodes ++ recursiveNodes))

/-- A flush up to the pointer, that included. -/
def commit (codec : Codec) : Program Error (Pins × Digest × Digests) := do
  let pins ← current
  let (root, internal) ← storeRecord codec pins
  mapError .store (Storage.putRecord pointerKey root.bytes)
  return (pins, root, internal)

/-- What a flush does after the pointer has moved. -/
def cleanUp (pins : Pins) (root : Digest) (internal : Digests) : Program Error Digest := do
  let stale := stale pins internal
  forEach stale removeStale
  log (.recordFlushed root pins.direct.size pins.recursive.size internal.size stale.length)
  changePins fun pins => { pins with internal, root := some root }
  return root

/-- A flush is a commit and cleaning up. -/
theorem flush_eq (codec : Codec) :
    flush codec = commit codec >>= fun (pins, root, internal) => cleanUp pins root internal := by
  simp only [flush, commit, storeRecord, cleanUp, bind_assoc, pure_bind]

/-- Storing a record stores just its nodes. -/
theorem stores_storeRecord (codec : Codec) (pins : Pins) :
    ∃ bs, (∀ data, data ∈ bs ↔ ∃ n ∈ recordNodes codec pins, n.encode = data) ∧
      Stores bs ((recordRoot codec pins).digest, (recorded codec pins).internal)
        (storeRecord codec pins) := by
  obtain ⟨bs, members, stores⟩ := codec.stores_write (onceEach pins.direct)
  obtain ⟨bs', members', stores'⟩ := codec.stores_write (onceEach pins.recursive)
  refine ⟨bs ++ (bs' ++ ([(recordRoot codec pins).encode] ++ [])), fun data => ?_,
    stores.mapError.bind (stores'.mapError.bind ((Stores.add _).mapError.bind ?_))⟩
  · simp only [List.mem_append, members, members', List.not_mem_nil, or_false, recordNodes,
      List.cons_append, List.mem_cons, or_and_right, exists_or, exists_eq_left,
      @eq_comm _ data (recordRoot codec pins).encode]
    exact or_rotate.symm
  · have internal : (recorded codec pins).internal = Std.ExtTreeSet.ofList
        ((recordRoot codec pins).digest :: (codec.written (onceEach pins.direct)).map Node.digest
          ++ (codec.written (onceEach pins.recursive)).map Node.digest) := by
      rw [recorded, recordNodes, List.map_append, List.map_cons]
    rw [internal]
    exact .pure _

/-- The world with the pointer at this root. -/
def pointAt (root : Digest) (w : World) : World :=
  { w with records := w.records.insert pointerKey root.bytes }

@[simp] theorem pins_pointAt (root : Digest) (w : World) : (pointAt root w).pins = w.pins := rfl

theorem sound_pointAt (root : Digest) (sound : w.Sound known) : (pointAt root w).Sound known :=
  ⟨sound.truthful, sound.addressed, sound.blocks⟩

/-- Moving the pointer. -/
theorem putRecord_cases (truthful : w.conduct.lies = []) (root : Digest) :
    Storage.putRecord pointerKey root.bytes w = (.done (), pointAt root w.ticked) ∨
      (w.conduct ≠ .honest ∧ (∀ a, (Storage.putRecord pointerKey root.bytes w).1 ≠ .done a) ∧
        (Storage.putRecord pointerKey root.bytes w).2 = w.ticked) := by
  rw [Storage.putRecord_eq truthful, bind_apply]
  rcases Storage.call_cases (.putRecord pointerKey) w with called | ⟨f, failed⟩ | halted
  · rw [called]
    exact Or.inl rfl
  · rw [failed]
    exact Or.inr ⟨Storage.call_refused failed nofun, nofun, rfl⟩
  · rw [halted]
    exact Or.inr ⟨Storage.call_refused halted nofun, nofun, rfl⟩

/-- What becomes of a commit whose record comes to these blocks: it has made sure of them and moved
the pointer, or it has done a first part of that and not moved it.  Where storage is honest there is
no other reason for the latter than that the store can not do more. -/
inductive Commits (codec : Codec) (bs : List Bytes) (w : World) :
    Outcome Error (Pins × Digest × Digests) → World → Prop where
  | done {between : World} (kept : keepAll bs w.store = (.ok (), between.store))
      (moved : World.Changes w between) :
      Commits codec bs w
        (.done (w.pins, (recordRoot codec w.pins).digest, (recorded codec w.pins).internal))
        (pointAt (recordRoot codec w.pins).digest between)
  | stopped {w' : World} {outcome : Outcome Error (Pins × Digest × Digests)} {early : List Bytes}
      (isEarly : early <+: bs) (part : w'.store = (keepAll early w.store).2)
      (notDone : ∀ answer, outcome ≠ .done answer)
      (stuck : w.conduct = .honest → ∃ f, keepAll bs w.store = (.error f, w'.store))
      (moved : World.Changes w w') : Commits codec bs w outcome w'

theorem commit_run {bs : List Bytes} (truthful : w.conduct.lies = [])
    (stores : Stores bs ((recordRoot codec w.pins).digest, (recorded codec w.pins).internal)
      (storeRecord codec w.pins)) :
    Commits codec bs w (commit codec w).1 (commit codec w).2 := by
  have stored := stores.run truthful
  have run : commit codec w = (storeRecord codec w.pins >>= fun (root, internal) => do
      mapError .store (Storage.putRecord pointerKey root.bytes)
      return (w.pins, root, internal)) w := rfl
  rw [run, bind_apply]
  rcases step : storeRecord codec w.pins w with ⟨⟨root, internal⟩ | e | _, between⟩
  all_goals rw [step] at stored
  · cases stored with
    | stopped _ _ notDone => exact absurd rfl (notDone _)
    | done kept moved =>
      have moved' : World.Changes w between.ticked :=
        IsTrans.trans _ _ _ moved between.untouched_ticked.moves
      dsimp only
      rw [bind_apply, mapError]
      rcases putRecord_cases (moved.truthful truthful) (recordRoot codec w.pins).digest
        with pointed | ⟨dishonest, not, same⟩
      · rw [pointed]
        exact .done kept moved'
      · have part : between.ticked.store = (keepAll bs w.store).2 := by rw [kept]; rfl
        have stuck : w.conduct = .honest →
            ∃ f, keepAll bs w.store = (.error f, between.ticked.store) :=
          fun honest => absurd (moved.conduct.trans honest) dishonest
        rcases ended : Storage.putRecord pointerKey (recordRoot codec w.pins).digest.bytes between
          with ⟨a | f | _, w'⟩
        · rw [ended] at not
          exact absurd rfl (not a)
        all_goals
          rw [ended] at same
          cases same
          exact .stopped (List.prefix_refl _) part (fun _ done => by cases done) stuck moved'
  all_goals
    cases stored with
    | stopped isEarly part _ stuck moved =>
      exact .stopped isEarly part (fun _ done => by cases done) stuck moved

/-- A commit that goes through has stored the record and moved the pointer.  Any other has lost
nothing and not moved it. -/
theorem commit_cases (distinct : Distinct known) (isKnown : recordBlocks codec w.pins ⊆ known)
    (sound : w.Sound known) :
    (∃ between, World.Grows w between ∧ between.Sound known ∧
      (∀ n ∈ recordNodes codec w.pins, between.store.block? n.digest = some n.encode) ∧
      commit codec w
        = (.done (w.pins, (recordRoot codec w.pins).digest, (recorded codec w.pins).internal),
          pointAt (recordRoot codec w.pins).digest between)) ∨
      ((∀ answer w', commit codec w ≠ (.done answer, w')) ∧ World.Grows w (commit codec w).2 ∧
        (commit codec w).2.Sound known) := by
  obtain ⟨bs, members, stores⟩ := stores_storeRecord codec w.pins
  have areKnown : ∀ data ∈ bs, data ∈ known := by
    intro data inside
    obtain ⟨n, isNode, rfl⟩ := (members data).mp inside
    exact isKnown (encode_mem_recordBlocks isNode)
  have run := commit_run sound.truthful stores
  rcases step : commit codec w with ⟨outcome, w'⟩
  rw [step] at run
  cases run with
  | @done between kept moved =>
    obtain ⟨grows, addressed, blocks, readable⟩ :=
      keepAll_spec distinct areKnown sound.addressed sound.blocks kept
    refine Or.inl ⟨between, ⟨grows, moved.records, moved.pins, moved.conduct⟩,
      ⟨moved.truthful sound.truthful, addressed, blocks⟩, fun n inside => ?_, rfl⟩
    exact readable rfl _ ((members _).mpr ⟨n, inside, rfl⟩)
  | @stopped _ _ early isEarly part notDone _ moved =>
    rcases kept : keepAll early w.store with ⟨result, store⟩
    rw [kept] at part
    obtain ⟨grows, addressed, blocks, -⟩ := keepAll_spec distinct
      (fun data inside => areKnown data (isEarly.subset inside)) sound.addressed sound.blocks kept
    refine Or.inr ⟨fun answer _ done => notDone answer (Prod.mk.inj done).1,
      ⟨part ▸ grows, moved.records, moved.pins, moved.conduct⟩,
      moved.truthful sound.truthful, part ▸ addressed, part ▸ blocks⟩

/-! ## Cleaning up -/

/-- What a run comes to that removes nodes as far as they can be removed: some of them are gone, and
the run has not failed.  Where storage is honest it goes through and has left none out. -/
structure Removed (ds : List Digest) (w : World) (outcome : Outcome Error Unit)
    (w' : World) : Prop where
  gone : ∃ gone, gone.Sublist ds ∧ w'.store = w.store.dropAll gone
  notFailed : ∀ e, outcome ≠ .failed e
  honest : w.conduct = .honest → outcome = .done () ∧ w'.store = w.store.dropAll ds
  moved : World.Changes w w'

theorem removed_removeStale (truthful : w.conduct.lies = []) (d : Digest) :
    Removed [d] w (removeStale d w).1 (removeStale d w).2 := by
  have run : removeStale d w = match Blocks.remove d w with
      | (.done (), w) => (.done (), w)
      | (.failed f, w) =>
        if f.isNotFound then (.done (), w)
        else (.done (), { w with journal := .event (.staleKept d f) :: w.journal })
      | (.halted, w) => (.halted, w) := by
    rw [removeStale, bind_apply, attempt, Graph.remove, bind_apply, attempt]
    rcases Blocks.remove d w with ⟨_ | f | _, w'⟩
    · rfl
    · dsimp only
      by_cases missing : f.isNotFound = true
      · rw [if_pos missing, if_pos missing]
        rfl
      · rw [if_neg missing, if_neg missing]
        rfl
    · rfl
  rw [run]
  rcases Blocks.remove_cases truthful d with ⟨store, removed, done⟩ | ⟨not, same⟩
  · rw [done]
    exact ⟨⟨[d], .refl _, (drop_of_ok removed).symm⟩, nofun,
      fun _ => ⟨rfl, (drop_of_ok removed).symm⟩, trivial, rfl, rfl, rfl⟩
  · rcases ended : Blocks.remove d w with ⟨_ | f | _, w'⟩
    · exact absurd ended (not w')
    · rw [ended] at same
      cases same
      have left : w.conduct = .honest → w.store = w.store.dropAll [d] := by
        intro honest
        rcases Blocks.remove_cases_honest honest d with ⟨store, -, done⟩ | ⟨f', stuck, -⟩
        · exact absurd done (not _)
        · exact (drop_of_error stuck).symm
      dsimp only
      split
      · exact ⟨⟨[], List.nil_sublist _, rfl⟩, nofun, fun honest => ⟨rfl, left honest⟩,
          trivial, rfl, rfl, rfl⟩
      · exact ⟨⟨[], List.nil_sublist _, rfl⟩, nofun, fun honest => ⟨rfl, left honest⟩,
          trivial, rfl, rfl, rfl⟩
    · rw [ended] at same
      cases same
      exact ⟨⟨[], List.nil_sublist _, rfl⟩, nofun,
        fun honest => absurd ended (Blocks.remove_ne_halted honest), trivial, rfl, rfl, rfl⟩

theorem removed_forEach (truthful : w.conduct.lies = []) (ds : List Digest) :
    Removed ds w (forEach ds removeStale w).1 (forEach ds removeStale w).2 := by
  induction ds generalizing w with
  | nil => exact ⟨⟨[], .refl _, rfl⟩, nofun, fun _ => ⟨rfl, rfl⟩, trivial, rfl, rfl, rfl⟩
  | cons d rest ih =>
    have first := removed_removeStale truthful d
    rw [forEach, show Program.bind (removeStale d) _ = removeStale d >>= _ from rfl, bind_apply]
    rcases step : removeStale d w with ⟨_ | e | _, between⟩
    all_goals rw [step] at first
    · obtain ⟨⟨gone, sub, dropped⟩, -, honest, moved⟩ := first
      obtain ⟨⟨gone', sub', dropped'⟩, notFailed, honest', moved'⟩ := ih (moved.truthful truthful)
      refine ⟨⟨gone ++ gone', sub.append sub', ?_⟩, notFailed, fun isHonest => ?_,
        IsTrans.trans _ _ _ moved moved'⟩
      · rw [dropAll_append, ← dropped]
        exact dropped'
      · obtain ⟨done, all⟩ := honest' (moved.conduct.trans isHonest)
        exact ⟨done, all.trans (congrArg (dropAll rest) (honest isHonest).2)⟩
    · exact absurd rfl (first.notFailed e)
    · obtain ⟨⟨gone, sub, dropped⟩, -, honest, moved⟩ := first
      have sub' : gone.Sublist (d :: rest) :=
        sub.trans (List.singleton_sublist.mpr List.mem_cons_self)
      exact ⟨⟨gone, sub', dropped⟩, nofun, fun isHonest => (nomatch (honest isHonest).1), moved⟩

/-- What becomes of cleaning up.  It does not fail, removes nothing but stale nodes and touches no
record; where storage is honest it goes through and removes all of them that can be removed. -/
structure CleanedUp (pins : Pins) (root : Digest) (internal : Digests) (w : World)
    (outcome : Outcome Error Digest) (w' : World) : Prop where
  gone : ∃ gone, gone.Sublist (stale pins internal) ∧ w'.store = w.store.dropAll gone
  records : w'.records = w.records
  conduct : w'.conduct = w.conduct
  notFailed : ∀ e, outcome ≠ .failed e
  /-- If it goes through, the pins are those of the new record. -/
  done : ∀ {answer}, outcome = .done answer →
    answer = root ∧ w'.pins = { w.pins with internal, root := some root }
  honest : w.conduct = .honest →
    outcome = .done root ∧ w'.store = w.store.dropAll (stale pins internal)

theorem cleanUp_run (truthful : w.conduct.lies = []) (pins : Pins) (root : Digest)
    (internal : Digests) :
    CleanedUp pins root internal w (cleanUp pins root internal w).1
      (cleanUp pins root internal w).2 := by
  have removed := removed_forEach truthful (stale pins internal)
  rw [cleanUp, bind_apply]
  rcases step : forEach (stale pins internal) removeStale w with ⟨_ | e | _, between⟩
  all_goals rw [step] at removed
  · obtain ⟨gone, -, honest, moved⟩ := removed
    refine ⟨gone, moved.records, moved.conduct, nofun, fun done => ?_,
      fun isHonest => ⟨rfl, (honest isHonest).2⟩⟩
    cases done
    exact ⟨rfl, congrArg (fun pins : Pins => { pins with internal, root := some root }) moved.pins⟩
  · exact absurd rfl (removed.notFailed e)
  · obtain ⟨gone, -, honest, moved⟩ := removed
    exact ⟨gone, moved.records, moved.conduct, nofun, nofun,
      fun isHonest => (nomatch (honest isHonest).1)⟩

/-- Cleaning up loses nothing but stale nodes. -/
theorem CleanedUp.sheds {root : Digest} {internal : Digests} {outcome : Outcome Error Digest}
    (cleaned : CleanedUp pins root internal w outcome w') (sound : w.Sound known) :
    ObjectStore.Sheds (· ∈ stale pins internal) w.store w'.store ∧ w'.Sound known := by
  obtain ⟨gone, sub, dropped⟩ := cleaned.gone
  have sheds : ObjectStore.Sheds (· ∈ stale pins internal) w.store (w.store.dropAll gone) :=
    (sheds_dropAll gone w.store).mono fun _ inside => sub.subset inside
  refine ⟨dropped ▸ sheds, cleaned.conduct ▸ sound.truthful,
    dropped ▸ dropAll_induction (fun before removed => (delete_spec before removed).1.addressed)
      sound.addressed gone, ?_⟩
  rintro data ⟨d, there⟩
  rw [dropped] at there
  rcases sheds.held d with same | ⟨-, absent⟩
  · exact sound.blocks ⟨d, same ▸ there⟩
  · cases absent.symm.trans there

theorem mem_stale {internal : Digests} {d : Digest} : d ∈ stale pins internal ↔
    d ∈ pins.internal ∧ d ≠ Node.emptyDigest ∧ d ∉ internal ∧ d ∉ pins.direct ∧
      d ∉ pins.recursive := by
  rw [stale, List.mem_filter, Std.ExtTreeSet.mem_toList]
  simp [and_assoc]

/-- A node of the old record that is not stale is spared for one of these reasons. -/
theorem spared_of_not_stale {internal : Digests} {d : Digest} (old : d ∈ pins.internal)
    (notStale : d ∉ stale pins internal) :
    d ∈ internal ∨ d = Node.emptyDigest ∨ d ∈ pins.direct ∨ d ∈ pins.recursive := by
  rw [mem_stale] at notStale
  tauto

theorem not_stale_of_mem_internal {internal : Digests} {d : Digest} (h : d ∈ internal) :
    d ∉ stale pins internal :=
  fun isStale => (mem_stale.mp isStale).2.2.1 h

theorem not_stale_of_mem_direct {internal : Digests} {d : Digest} (h : d ∈ pins.direct) :
    d ∉ stale pins internal :=
  fun isStale => (mem_stale.mp isStale).2.2.2.1 h

theorem mem_internal_of_stale {internal : Digests} {d : Digest} (h : d ∈ stale pins internal) :
    d ∈ pins.internal :=
  (mem_stale.mp h).1

/-! ## The whole of a flush -/

/-- What becomes of a flush whose record comes to these blocks: it has made sure of them, moved the
pointer and gone on to clean up, or its commit has stopped after a first part of them. -/
inductive Flushes (codec : Codec) (bs : List Bytes) (w : World) :
    Outcome Error Digest → World → Prop where
  | goesOn {between w' : World} {outcome : Outcome Error Digest}
      (kept : keepAll bs w.store = (.ok (), between.store)) (moved : World.Changes w between)
      (run : cleanUp w.pins (recordRoot codec w.pins).digest (recorded codec w.pins).internal
        (pointAt (recordRoot codec w.pins).digest between) = (outcome, w'))
      (cleaned : CleanedUp w.pins (recordRoot codec w.pins).digest
        (recorded codec w.pins).internal (pointAt (recordRoot codec w.pins).digest between)
        outcome w') : Flushes codec bs w outcome w'
  | stopped {w' : World} {outcome : Outcome Error Digest} {early : List Bytes}
      (isEarly : early <+: bs) (part : w'.store = (keepAll early w.store).2)
      (notCommitted : ∀ answer v, commit codec w ≠ (.done answer, v))
      (notDone : ∀ root, outcome ≠ .done root)
      (stuck : w.conduct = .honest → ∃ f, keepAll bs w.store = (.error f, w'.store))
      (moved : World.Changes w w') : Flushes codec bs w outcome w'

theorem flush_run {bs : List Bytes} (truthful : w.conduct.lies = [])
    (stores : Stores bs ((recordRoot codec w.pins).digest, (recorded codec w.pins).internal)
      (storeRecord codec w.pins)) :
    Flushes codec bs w (flush codec w).1 (flush codec w).2 := by
  have commits := commit_run truthful stores
  rw [flush_eq, bind_apply]
  rcases step : commit codec w with ⟨answer | e | _, between⟩
  all_goals rw [step] at commits
  · cases commits with
    | stopped _ _ notDone => exact absurd rfl (notDone answer)
    | @done between kept moved =>
      have cleaned := cleanUp_run (w := pointAt (recordRoot codec w.pins).digest between)
        (moved.truthful truthful) w.pins (recordRoot codec w.pins).digest
        (recorded codec w.pins).internal
      exact .goesOn kept moved rfl cleaned
  all_goals
    have notCommitted : ∀ answer v, commit codec w ≠ (.done answer, v) := by
      rw [step]
      exact nofun
    cases commits with
    | stopped isEarly part _ stuck moved =>
      exact .stopped isEarly part notCommitted nofun stuck moved

end PinnedStore.Pin
