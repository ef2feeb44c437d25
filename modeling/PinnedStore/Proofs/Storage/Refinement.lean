import PinnedStore.Proofs.Storage.Usable

/-!
# Blocks are a table

Whatever lies behind it, a store of blocks behaves as a table that has one entry for each digest:
the calls on blocks answer what a table would answer, in any order and on both kinds of store.  So
the two kinds answer alike, although they spell paths, read parts of an object and report what is
missing each in its own way.

The store starts empty, the storage does what it is asked to do, and no two of the blocks that are
ever written have the same digest.  Then the store holds what the table holds after every call,
which is one lemma for each call, and the laws about whole runs are inductions on the calls.

In which order blocks are listed is the store's own affair.  Each of them is listed once, because
every path that is listed is read as the block it was written for.

Two kinds of directory list nothing and are no empty tables.  One has an empty path and never lists
anything; all it does besides is right, so it is part of the theorem.  In the other a directory has
been left in the place of a block, where it is taken for the block.  That one is left out: nothing
must be in the way of any block.

* `Call`, `Call.run`: the calls on blocks, and `Reply` what becomes of them.
* `Table`, `Call.answer`: what a table answers, and `Represents` that a store holds what a table
  holds.
* `Represents.reply`: a call on a store and on its table.
* `replies_agree`: all calls on an empty store, and `replies_disagree` on the two that are no tables.
-/

namespace PinnedStore

namespace Blocks

open Program ObjectStore

/-! ## Calls and their replies -/

/-- A call on the blocks of a store. -/
inductive Call where
  | put (data : Bytes)
  | get (d : Digest)
  /-- Reading a block from somewhere on, and no more than so much of it. -/
  | window (d : Digest) (offset : UInt64) (limit : Option UInt64)
  | has (d : Digest)
  | size (d : Digest)
  | remove (d : Digest)
  | list
  deriving DecidableEq

/-- What becomes of a call. -/
inductive Reply where
  | name (d : Digest)
  | bytes (data : Bytes)
  | present (there : Bool)
  | length (bytes : Nat)
  | removed
  | listed (ds : List Digest)
  /-- It fails because there is no such block. -/
  | absent
  /-- It fails for another reason, or is stopped. -/
  | broken
  deriving DecidableEq

/-- The same reply, apart from the order in which blocks are listed; and if the store can not list
what it holds, it lists nothing instead. -/
def Reply.Agrees (enumerates : Prop) : Reply → Reply → Prop
  | .listed ds, .listed ds' => (enumerates → ds.Perm ds') ∧ (¬ enumerates → ds = [])
  | reply, reply' => reply = reply'

theorem Reply.agrees_refl {enumerates : Prop} {reply : Reply} (other : ∀ ds, reply ≠ .listed ds) :
    reply.Agrees enumerates reply := by
  cases reply with
  | listed ds => exact absurd rfl (other ds)
  | _ => rfl

/-- The call as a program. -/
def Call.run : Call → Program Failure Reply
  | .put data => return .name (← Blocks.put data)
  | .get d => return .bytes (← Blocks.get d)
  | .window d offset limit => do
    return .bytes (← Storage.read (← path d) offset.toNat (limit.map UInt64.toNat))
  | .has d => return .present (← Blocks.has d)
  | .size d => return .length (← Blocks.size d)
  | .remove d => do
    Blocks.remove d
    return .removed
  | .list => return .listed (← Blocks.list)

/-- What becomes of a call in a world, and the world it leaves. -/
def Call.reply (call : Call) (w : World) : Reply × World :=
  match call.run w with
  | (.done reply, w) => (reply, w)
  | (.failed f, w) => (if f.isNotFound then .absent else .broken, w)
  | (.halted, w) => (.broken, w)

/-- What becomes of one call after the other. -/
def replies : List Call → World → List Reply × World
  | [], w => ([], w)
  | call :: rest, w =>
    let (reply, w) := call.reply w
    let (replies, w) := replies rest w
    (reply :: replies, w)

/-! ## Tables -/

/-- Bytes under their digests. -/
abbrev Table := Std.ExtTreeMap Digest Bytes

/-- What becomes of a call on a table, and the table it leaves. -/
def Call.answer : Call → Table → Reply × Table
  | .put data, table => (.name (Digest.of data), table.insert (Digest.of data) data)
  | .get d, table => (table[d]?.elim .absent .bytes, table)
  | .window d offset limit, table =>
    (table[d]?.elim .absent fun data =>
      .bytes (data.window offset.toNat (limit.map UInt64.toNat)), table)
  | .has d, table => (.present (table.contains d), table)
  | .size d, table => (table[d]?.elim .absent fun data => .length data.length, table)
  | .remove d, table => (.removed, table.erase d)
  | .list, table => (.listed table.keys, table)

/-- What becomes of one call on a table after the other. -/
def answers : List Call → Table → List Reply × Table
  | [], table => ([], table)
  | call :: rest, table =>
    let (reply, table) := call.answer table
    let (replies, table) := answers rest table
    (reply :: replies, table)

/-- The store of a world holds what a table holds, all of it blocks of a set, and carries out every
call on blocks; whether it can list what it holds is said by a proposition. -/
structure Represents (known : Set Bytes) (enumerates : Prop) (w : World) (table : Table) :
    Prop where
  honest : w.conduct = .honest
  regular : w.store.Regular
  usable : w.store.Usable
  enumerates : w.store.Enumerates ↔ enumerates
  held : ∀ d : Digest, w.store.held d = table[d]?
  known : ∀ (d : Digest) (data : Bytes), table[d]? = some data → data ∈ known

namespace Represents

variable {known : Set Bytes} {enumerates : Prop} {w w' : World} {table : Table} {d : Digest}
  {data : Bytes}

theorem truthful (represents : Represents known enumerates w table) : w.conduct.lies = [] :=
  World.truthful_of_honest represents.honest

theorem untouched (represents : Represents known enumerates w table)
    (moved : World.Untouched w w') : Represents known enumerates w' table := by
  refine ⟨moved.conduct.trans represents.honest, ?_, ?_, ?_, ?_, represents.known⟩
  all_goals rw [← moved.store]
  · exact represents.regular
  · exact represents.usable
  · exact represents.enumerates
  · exact represents.held

/-- A block that the table has is answered for, and no other. -/
theorem answers_or_misses (represents : Represents known enumerates w table) (d : Digest) :
    (∃ data, table[d]? = some data ∧ w.store.Answers d data) ∨
      (table[d]? = none ∧ w.store.Misses d) := by
  have same := (represents.regular.block?_eq_held d).trans (represents.held d)
  rcases there : table[d]? with _ | data
  · exact Or.inr ⟨rfl, represents.usable.misses (same.trans there)⟩
  · exact Or.inl ⟨data, rfl, answers_of_block? (same.trans there)⟩

/-- A question about the store that is put to honest storage. -/
theorem asked {α : Type} (represents : Represents known enumerates w table) (op : Operation)
    (question : ObjectStore → Except Failure α) (answer : α → Reply) {reply : Reply}
    (answered : (∃ a, question w.store = .ok a ∧ reply = answer a) ∨
      ∃ f, question w.store = .error f ∧ f.isNotFound = true ∧ reply = .absent)
    {call : Call} (run : call.run w = (do
      Storage.call op
      return answer (← Storage.ask question) : Program Failure Reply) w) :
    (call.reply w).1 = reply ∧ World.Untouched w (call.reply w).2 := by
  have called := Storage.call_honest represents.honest op
  rw [bind_of_done called] at run
  rcases answered with ⟨a, found, rfl⟩ | ⟨f, missing, notFound, rfl⟩
  · have asked : Storage.ask question w.ticked = (.done a, w.ticked) :=
      Storage.ask_done.mpr ⟨rfl, found⟩
    rw [bind_of_done asked] at run
    rw [Call.reply, run]
    exact ⟨rfl, w.untouched_ticked⟩
  · have asked : Storage.ask question w.ticked = (.failed f, w.ticked) := by
      rw [Storage.ask, World.store_ticked, missing]
    rw [bind_apply, asked] at run
    rw [Call.reply, run]
    dsimp only
    rw [notFound]
    exact ⟨rfl, w.untouched_ticked⟩

/-- Asking for the bytes of a block, or for a part of them. -/
theorem reply_read (represents : Represents known enumerates w table) (d : Digest) (offset : Nat)
    (limit : Option Nat) {call : Call}
    (run : call.run w = (do
      return .bytes (← Storage.read (BlockPath.write w.store.features d) offset limit) :
      Program Failure Reply) w) :
    (call.reply w).1 = table[d]?.elim .absent (fun data => .bytes (data.window offset limit)) ∧
      World.Untouched w (call.reply w).2 := by
  refine represents.asked (.read (BlockPath.write w.store.features d))
    (ObjectStore.read (BlockPath.write w.store.features d) offset limit) .bytes ?_ ?_
  · rcases represents.answers_or_misses d with ⟨data, there, answers⟩ | ⟨absent, misses⟩
    · exact Or.inl ⟨_, answers.read offset limit, by rw [there]; rfl⟩
    · obtain ⟨f, missing, notFound⟩ := misses.read offset limit
      exact Or.inr ⟨f, missing, notFound, by rw [absent]; rfl⟩
  · rw [run, ← bind_assoc]
    exact bind_of_eq (Storage.read_eq represents.truthful _ _ _)

/-- Asking whether there is a block. -/
theorem reply_has (represents : Represents known enumerates w table) (d : Digest) :
    ((Call.has d).reply w).1 = .present (table.contains d) ∧
      World.Untouched w ((Call.has d).reply w).2 := by
  refine represents.asked (.isThere (BlockPath.write w.store.features d))
    (ObjectStore.isThere (BlockPath.write w.store.features d)) .present ?_ ?_
  · rw [Std.ExtTreeMap.contains_eq_isSome_getElem?]
    rcases represents.answers_or_misses d with ⟨data, there, answers⟩ | ⟨absent, misses⟩
    · exact Or.inl ⟨true, answers.isThere, by rw [there]; rfl⟩
    · exact Or.inl ⟨false, misses.isThere, by rw [absent]; rfl⟩
  · rw [← bind_assoc]
    exact bind_of_eq (Storage.isThere_eq represents.truthful _)

/-- Asking for the size of a block. -/
theorem reply_size (represents : Represents known enumerates w table) (d : Digest) :
    ((Call.size d).reply w).1 = table[d]?.elim .absent (fun data => .length data.length) ∧
      World.Untouched w ((Call.size d).reply w).2 := by
  refine represents.asked (.size (BlockPath.write w.store.features d))
    (ObjectStore.size (BlockPath.write w.store.features d)) .length ?_ ?_
  · rcases represents.answers_or_misses d with ⟨data, there, answers⟩ | ⟨absent, misses⟩
    · exact Or.inl ⟨_, answers.size, by rw [there]; rfl⟩
    · obtain ⟨f, missing, notFound⟩ := misses.size
      exact Or.inr ⟨f, missing, notFound, by rw [absent]; rfl⟩
  · rw [← bind_assoc]
    exact bind_of_eq (Storage.size_eq represents.truthful _)

/-- A block that has been written is in the table. -/
theorem written (represents : Represents known enumerates w table) (isKnown : data ∈ known)
    (wrote : w.store.put (BlockPath.write w.store.features (Digest.of data)) data
      = (.ok (), w'.store))
    (conduct : w'.conduct = w.conduct) :
    Represents known enumerates w' (table.insert (Digest.of data) data) := by
  obtain ⟨changes, -, succeeds⟩ := put_spec represents.regular.addressed rfl wrote
  have own := held_of_block? (succeeds rfl)
  refine ⟨conduct.trans represents.honest, represents.regular.put wrote,
    represents.usable.put wrote, ?_, fun d => ?_, fun d content there => ?_⟩
  · rw [← represents.enumerates, Enumerates, changes.later.base?, Enumerates]
  · rw [Std.ExtTreeMap.getElem?_insert]
    split
    · next equal => rw [← Std.compare_eq_iff_eq.mp equal, own]
    · next other =>
      rw [changes.others d fun same => other (Std.compare_eq_iff_eq.mpr same.symm), represents.held]
  · rw [Std.ExtTreeMap.getElem?_insert] at there
    split at there
    · exact Option.some.inj there ▸ isKnown
    · exact represents.known d content there

/-- Writing a block. -/
theorem reply_put (distinct : Distinct known) (represents : Represents known enumerates w table)
    (isKnown : data ∈ known) :
    ∃ w', put data w = (.done (Digest.of data), w') ∧
      Represents known enumerates w' (table.insert (Digest.of data) data) := by
  have cases := put_cases represents.truthful data
  rcases run : put data w with ⟨outcome, w'⟩
  rw [run] at cases
  refine ⟨w', ?_⟩
  rcases represents.answers_or_misses (Digest.of data) with
    ⟨content, isThere, answers⟩ | ⟨-, misses⟩
  · have keep := keep_of_present answers.isThere
    cases cases with
    | kept kept moved =>
      -- The block that is there has the same digest, so it is the same block.
      have named : Digest.of content = Digest.of data :=
        represents.regular.addressed.digest_of_held ((represents.held _).trans isThere)
      have same : content = data := distinct (represents.known _ _ isThere) isKnown named
      have unchanged : table.insert (Digest.of data) data = table := by
        refine Std.ExtTreeMap.ext_getElem? fun d => ?_
        rw [Std.ExtTreeMap.getElem?_insert]
        split
        · next equal => rw [← Std.compare_eq_iff_eq.mp equal, isThere, same]
        · rfl
      have store : w.store = w'.store := (Prod.mk.inj (keep.symm.trans kept)).2
      rw [unchanged]
      exact ⟨rfl, represents.untouched ⟨store, moved.records, moved.pins, moved.conduct⟩⟩
    | stuck stuck moved => cases keep.symm.trans stuck
    | refused dishonest => exact absurd represents.honest dishonest
  · have keep := keep_of_absent misses.isThere
    cases cases with
    | kept kept moved =>
      exact ⟨rfl, represents.written isKnown (keep.symm.trans kept) moved.conduct⟩
    | stuck stuck moved =>
      obtain ⟨s', done⟩ := represents.usable.put_done (Digest.of data) data
      cases done.symm.trans (keep.symm.trans stuck)
    | refused dishonest => exact absurd represents.honest dishonest

/-- Removing a block. -/
theorem reply_remove (represents : Represents known enumerates w table) (d : Digest) :
    ∃ w', remove d w = (.done (), w') ∧ Represents known enumerates w' (table.erase d) := by
  obtain ⟨s', done⟩ := represents.usable.delete_done d
  rcases remove_cases_honest represents.honest d with ⟨store, removed, run⟩ | ⟨f, stuck, -⟩
  · refine ⟨_, run, represents.honest, represents.regular.delete removed,
      represents.usable.delete removed, ?_, fun d' => ?_, fun d' content there => ?_⟩
    · obtain ⟨later, -⟩ := held_delete removed
      rw [← represents.enumerates, Enumerates, Enumerates]
      change store.base? ≠ _ ↔ _
      rw [later.base?]
    · change store.held d' = _
      have regular := represents.regular.delete removed
      rw [← regular.block?_eq_held, block?_delete removed, Std.ExtTreeMap.getElem?_erase,
        represents.regular.block?_eq_held, represents.held]
      simp only [Std.compare_eq_iff_eq, @eq_comm _ d' d]
    · rw [Std.ExtTreeMap.getElem?_erase] at there
      split at there
      · cases there
      · exact represents.known d' content there
  · cases done.symm.trans stuck

/-- Listing the blocks. -/
theorem reply_list (represents : Represents known enumerates w table) :
    ∃ ds, list w = (.done ds, w.ticked) ∧ (enumerates → ds.Perm table.keys) ∧
      (¬ enumerates → ds = []) := by
  obtain ⟨ds, listed, readable⟩ := list_of_regular represents.honest represents.regular
  obtain ⟨-, read⟩ := digestsOf_of_list represents.truthful listed
  have same := fun d => (represents.regular.block?_eq_held d).trans (represents.held d)
  rw [← represents.enumerates]
  refine ⟨ds, listed, fun enumerates => ?_, fun unlisted => ?_⟩
  · have nodup := nodup_of_orderly represents.regular.orderly read
    refine (List.perm_ext_iff_of_nodup nodup ?_).mpr fun d => ?_
    · refine table.distinct_keys.imp ?_
      rintro d d' distinct rfl
      exact distinct Std.ReflCmp.compare_self
    · rw [Std.ExtTreeMap.mem_keys, Std.ExtTreeMap.mem_iff_isSome_getElem?, ← same]
      constructor
      · intro isListed
        obtain ⟨data, there⟩ := readable d isListed
        rw [there]
        rfl
      · intro isSome
        obtain ⟨data, there⟩ := Option.isSome_iff_exists.mp isSome
        exact mem_of_list_done represents.truthful enumerates listed there
  · rw [list_of_not_enumerates unlisted] at read
    cases read
    rfl

/-- A call on a store answers what the call on its table answers, and leaves what that leaves. -/
theorem reply (distinct : Distinct known) (represents : Represents known enumerates w table)
    (call : Call) (isKnown : ∀ data, call = .put data → data ∈ known) :
    (call.reply w).1.Agrees enumerates (call.answer table).1 ∧
      Represents known enumerates (call.reply w).2 (call.answer table).2 := by
  have question : ∀ {reply : Reply} {call : Call},
      (call.reply w).1 = reply ∧ World.Untouched w (call.reply w).2 →
      (∀ ds, reply ≠ .listed ds) →
      (call.reply w).1.Agrees enumerates reply ∧
        Represents known enumerates (call.reply w).2 table :=
    fun ⟨same, moved⟩ other => ⟨same.symm ▸ Reply.agrees_refl other, represents.untouched moved⟩
  -- Nothing but listing is answered by a list, be there such a block or not.
  have unlisted : ∀ {d : Digest} {answer : Bytes → Reply}, (∀ data ds, answer data ≠ .listed ds) →
      ∀ ds, table[d]?.elim .absent answer ≠ .listed ds := by
    intro d answer other ds
    cases table[d]? with
    | none => nofun
    | some data => exact other data ds
  cases call with
  | put data =>
    obtain ⟨w', done, represents'⟩ := represents.reply_put distinct (isKnown data rfl)
    have run : (Call.put data).run w = (.done (.name (Digest.of data)), w') :=
      (bind_of_done done).trans rfl
    rw [Call.reply, run]
    exact ⟨rfl, represents'⟩
  | get d => exact question (represents.reply_read d 0 none rfl) (unlisted nofun)
  | window d offset limit =>
    exact question (represents.reply_read d offset.toNat (limit.map UInt64.toNat) rfl)
      (unlisted nofun)
  | has d => exact question (represents.reply_has d) nofun
  | size d => exact question (represents.reply_size d) (unlisted nofun)
  | remove d =>
    obtain ⟨w', done, represents'⟩ := represents.reply_remove d
    have run : (Call.remove d).run w = (.done .removed, w') := (bind_of_done done).trans rfl
    rw [Call.reply, run]
    exact ⟨rfl, represents'⟩
  | list =>
    obtain ⟨ds, done, agrees⟩ := represents.reply_list
    have run : Call.list.run w = (.done (.listed ds), w.ticked) := (bind_of_done done).trans rfl
    rw [Call.reply, run]
    exact ⟨agrees, represents.untouched w.untouched_ticked⟩

/-- Calls on a store answer what the calls on its table answer, and leave what those leave. -/
theorem replies (distinct : Distinct known) (represents : Represents known enumerates w table)
    {calls : List Call} (areKnown : ∀ data, .put data ∈ calls → data ∈ known) :
    List.Forall₂ (Reply.Agrees enumerates) (Blocks.replies calls w).1
        (Blocks.answers calls table).1 ∧
      Represents known enumerates (Blocks.replies calls w).2 (Blocks.answers calls table).2 := by
  induction calls generalizing w table with
  | nil => exact ⟨.nil, represents⟩
  | cons call rest ih =>
    obtain ⟨agrees, represents'⟩ := represents.reply distinct call fun data same =>
      areKnown data (same ▸ List.mem_cons_self)
    obtain ⟨others, represents''⟩ := ih represents' fun data inside =>
      areKnown data (List.mem_cons_of_mem _ inside)
    exact ⟨.cons agrees others, represents''⟩

end Represents

/-! ## From an empty store on -/

/-- A store that holds nothing yet holds what the empty table holds. -/
theorem represents_empty {known : Set Bytes} {w : World} (honest : w.conduct = .honest)
    (vacant : w.store.Vacant) : Represents known w.store.Enumerates w ∅ where
  honest := honest
  regular := vacant.regular
  usable := vacant.usable
  enumerates := Iff.rfl
  held := fun d => (vacant.held d).trans Std.ExtTreeMap.getElem?_empty.symm
  known := fun d data there => by
    rw [Std.ExtTreeMap.getElem?_empty] at there
    cases there

/-- Blocks are a table: starting with a store that holds nothing, in memory or in a directory with
nothing in the way, all calls answer what the calls on an empty table answer, and in the end just
that can be read which is in the table.  The one exception is a directory whose own path is empty;
there every other call answers what it should, but no block is ever listed. -/
theorem replies_agree {calls : List Call} {w : World} (honest : w.conduct = .honest)
    (vacant : w.store.Vacant) (distinct : Distinct { data | .put data ∈ calls }) :
    List.Forall₂ (Reply.Agrees w.store.Enumerates) (replies calls w).1 (answers calls ∅).1 ∧
      ∀ d : Digest, (replies calls w).2.store.block? d = (answers calls ∅).2[d]? := by
  obtain ⟨agree, represents⟩ :=
    (represents_empty honest vacant).replies distinct fun _ inside => inside
  exact ⟨agree, fun d => (represents.regular.block?_eq_held d).trans (represents.held d)⟩

/-- A directory that has not been made yet, on a disk with nothing on it. -/
def newDirectory : Directory := ⟨"blocks".toList, .empty⟩

/-- A block. -/
def oneBlock : Bytes := Bytes.ofText "only"

/-- The digest of the block. -/
def oneName : Digest := Digest.of oneBlock

/-- A world in whose store an object has been put below the path of the block and removed again.
What is left are directories, one of them in the place of the block. -/
def clutteredWorld : World :=
  let path := BlockPath.write Directory.features oneName ++ "/part"
  let clutter : Program Failure Unit := do
    Storage.put path []
    Storage.delete path
  (clutter (World.fresh (.directory newDirectory) ∅)).2

/-- Two stores that list nothing and are no tables.  At an empty path a block is written and is
there, but it is not listed.  Where a directory is in the place of a block, the block is reported to
be there before it has been written; so it is not written, can not be read, and is not listed. -/
theorem replies_disagree :
    ((replies [.list, .put oneBlock, .has oneName, .list] (World.fresh (.directory .nameless) ∅)).1
        = [.listed [], .name oneName, .present true, .listed []] ∧
      (answers [.list, .put oneBlock, .has oneName, .list] ∅).1
        = [.listed [], .name oneName, .present true, .listed [oneName]]) ∧
    (replies [.list, .has oneName, .put oneBlock, .get oneName, .list] clutteredWorld).1
        = [.listed [], .present true, .name oneName, .broken, .listed []] ∧
      (answers [.list, .has oneName, .put oneBlock, .get oneName, .list] ∅).1
        = [.listed [], .present false, .name oneName, .bytes oneBlock, .listed [oneName]] := by
  decide +kernel

/-- Two blocks are written, read, removed and listed. -/
def fewCalls : List Call :=
  [.put (Bytes.ofText "first"), .put (Bytes.ofText "second"), .put (Bytes.ofText "first"),
    .window (Digest.of (Bytes.ofText "second")) 2 (some 3),
    .remove (Digest.of (Bytes.ofText "first")),
    .remove (Digest.of (Bytes.ofText "first")), .has (Digest.of (Bytes.ofText "first")),
    .get (Digest.of (Bytes.ofText "first")), .size (Digest.of (Bytes.ofText "second")), .list]

theorem vacant_newDirectory : (ObjectStore.directory newDirectory).Vacant := by
  have named : Path.names "blocks".toList = ["blocks"] := by decide
  exact Directory.vacant_of_empty (.of_level (by rw [named]; decide) rfl (by decide) (by decide)
    (by rw [named]; decide))

/-- The blocks that are written have different digests. -/
theorem distinct_fewCalls : Distinct { data | .put data ∈ fewCalls } := by
  have inside : ∀ data ∈ { data | Call.put data ∈ fewCalls },
      data ∈ [Bytes.ofText "first", Bytes.ofText "second"] := by
    intro data h
    change Call.put data ∈ fewCalls at h
    simp only [fewCalls, List.mem_cons, Call.put.injEq, reduceCtorEq,
      List.not_mem_nil, or_false] at h
    simp only [List.mem_cons, List.not_mem_nil, or_false]
    tauto
  refine distinct_of_pairwise inside ?_
  decide +kernel

theorem replies_agree_newDirectory : (ObjectStore.directory newDirectory).Enumerates ∧
    List.Forall₂ (Reply.Agrees (ObjectStore.directory newDirectory).Enumerates)
        (replies fewCalls (World.fresh (.directory newDirectory) ∅)).1 (answers fewCalls ∅).1 ∧
      ∀ d : Digest, (replies fewCalls (World.fresh (.directory newDirectory) ∅)).2.store.block? d
        = (answers fewCalls ∅).2[d]? :=
  ⟨nofun, replies_agree (w := World.fresh (.directory newDirectory) ∅) rfl vacant_newDirectory
    distinct_fewCalls⟩

end Blocks

end PinnedStore
